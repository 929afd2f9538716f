/-
# Reading fields off a string of bytes

A reader keeps a position and a flag. A field that does not fit leaves the position,
clears the flag and answers a default, so a reader never stops: the flag says at the
end whether the answers mean anything. One relation says that a reader consumes given
bytes and answers a given value, whatever follows them; it composes field by field.
-/

import Antumbra.Math.Codec

namespace Antumbra.Math

/-- The bytes, how far they were read, and whether every field so far fitted. -/
structure Cursor where
  bytes : List U8
  pos : ℕ
  ok : Bool
  deriving DecidableEq

/-- A computation that reads. -/
abbrev Reading (α : Type) := StateM Cursor α

namespace Reading

variable {α β : Type}

/-- Read the next `n` bytes as `f` has it. -/
def field (n : ℕ) (f : List U8 → α) (missing : α) : Reading α := fun c =>
  if c.bytes.length < c.pos + n then
    (missing, { c with ok := false })
  else
    (f ((c.bytes.drop c.pos).take n), { c with pos := c.pos + n })

/-- Give up: what was read means nothing. -/
def fail (a : α) : Reading α := fun c => (a, { c with ok := false })

/-- The reader consumes exactly `bs` and answers `a`, whatever comes after. -/
def Reads (m : Reading α) (bs : List U8) (a : α) : Prop :=
  ∀ (c : Cursor) (rest : List U8), c.bytes.drop c.pos = bs ++ rest → c.pos ≤ c.bytes.length →
    m c = (a, { c with pos := c.pos + bs.length })

/-- What follows the bytes at a position stands where they end. -/
theorem drop_next {bytes bs rest : List U8} {pos : ℕ} (here : bytes.drop pos = bs ++ rest)
    (inside : pos ≤ bytes.length) :
    bytes.drop (pos + bs.length) = rest ∧ pos + bs.length ≤ bytes.length := by
  have long : bs.length ≤ bytes.length - pos := by
    rw [← List.length_drop, here, List.length_append]
    omega
  exact ⟨by rw [← List.drop_drop, here, List.drop_left], by omega⟩

theorem Reads.pure (a : α) : Reads (Pure.pure a) [] a := fun _ _ _ _ => rfl

theorem Reads.bind {m : Reading α} {k : α → Reading β} {bs bs' : List U8} {a : α} {b : β}
    (first : Reads m bs a) (rest : Reads (k a) bs' b) : Reads (m >>= k) (bs ++ bs') b := by
  intro c after here inside
  rw [List.append_assoc] at here
  -- the second reader starts where the first one stops
  obtain ⟨next, inside'⟩ := drop_next here inside
  change (k (m c).1) (m c).2 = _
  rw [first c _ here inside, rest { c with pos := c.pos + bs.length } after next inside',
    List.length_append]
  rw [Nat.add_assoc]

/-- The last field of a record. -/
theorem Reads.last {m : Reading α} {bs : List U8} {a : α} (h : Reads m bs a) (f : α → β) :
    Reads (m >>= fun x => Pure.pure (f x)) bs (f a) := by
  have reads : Reads (m >>= fun x => Pure.pure (f x)) (bs ++ []) (f a) :=
    h.bind (Reads.pure (f a))
  rwa [List.append_nil] at reads

theorem Reads.field {n : ℕ} {f : List U8 → α} {missing : α} {bs : List U8}
    (length : bs.length = n) : Reads (Reading.field n f missing) bs (f bs) := by
  intro c after here inside
  have long : bs.length ≤ c.bytes.length - c.pos := by
    rw [← List.length_drop, here, List.length_append]
    omega
  rw [Reading.field, if_neg (by omega), here, ← length, List.take_left]

/-- The same of a reader that looks at the flag, where every field before it fitted. -/
def Takes (m : Reading α) (bs : List U8) (a : α) : Prop :=
  ∀ (c : Cursor) (rest : List U8), c.ok = true → c.bytes.drop c.pos = bs ++ rest →
    c.pos ≤ c.bytes.length → m c = (a, { c with pos := c.pos + bs.length })

theorem Reads.takes {m : Reading α} {bs : List U8} {a : α} (h : Reads m bs a) : Takes m bs a :=
  fun c rest _ here inside => h c rest here inside

theorem Takes.bind {m : Reading α} {k : α → Reading β} {bs bs' : List U8} {a : α} {b : β}
    (first : Takes m bs a) (rest : Takes (k a) bs' b) : Takes (m >>= k) (bs ++ bs') b := by
  intro c after ok here inside
  -- with the flag set both readers are as good as readers that do not look at it
  rw [List.append_assoc] at here
  obtain ⟨next, inside'⟩ := drop_next here inside
  change (k (m c).1) (m c).2 = _
  rw [first c _ ok here inside, rest { c with pos := c.pos + bs.length } after ok next inside',
    List.length_append]
  rw [Nat.add_assoc]

/-- A reader that takes its bytes hands the rest on where it stops. -/
theorem Takes.then {m : Reading α} {bs rest : List U8} {a : α} {c : Cursor} (first : Takes m bs a)
    (ok : c.ok = true) (here : c.bytes.drop c.pos = bs ++ rest) (inside : c.pos ≤ c.bytes.length)
    (k : α → Reading β) : (m >>= k) c = k a { c with pos := c.pos + bs.length } := by
  change k (m c).1 (m c).2 = _
  rw [first c rest ok here inside]

/-! ### Readers that run out of nothing -/

/-- Whatever the bytes are, `n` of them are enough for the reader, and what it answers is as
`P` says. -/
def Enough (m : Reading α) (n : ℕ) (P : α → Prop) : Prop :=
  ∀ c : Cursor, c.ok = true → c.pos + n ≤ c.bytes.length →
    P (m c).1 ∧ (m c).2.ok = true ∧ (m c).2.bytes = c.bytes ∧ (m c).2.pos ≤ c.pos + n

theorem Enough.pure {a : α} {P : α → Prop} (h : P a) : Enough (Pure.pure a) 0 P :=
  fun _ ok _ => ⟨h, ok, rfl, le_rfl⟩

theorem Enough.bind {m : Reading α} {k : α → Reading β} {n n' : ℕ} {P : α → Prop} {Q : β → Prop}
    (first : Enough m n P) (rest : ∀ a, P a → Enough (k a) n' Q) :
    Enough (m >>= k) (n + n') Q := by
  intro c ok room
  obtain ⟨answer, ok', same, moved⟩ := first c ok (by omega)
  obtain ⟨answer', ok'', same', moved'⟩ := rest (m c).1 answer (m c).2 ok' (by rw [same]; omega)
  refine ⟨answer', ok'', same'.trans same, ?_⟩
  change (k (m c).1 (m c).2).2.pos ≤ _
  omega

theorem Enough.mono {m : Reading α} {n n' : ℕ} {P : α → Prop} (h : Enough m n P) (le : n ≤ n') :
    Enough m n' P := by
  intro c ok room
  obtain ⟨answer, ok', same, moved⟩ := h c ok (by omega)
  exact ⟨answer, ok', same, by omega⟩

theorem Enough.field {n : ℕ} {f : List U8 → α} {missing : α} :
    Enough (Reading.field n f missing) n fun _ => True := by
  intro c ok room
  rw [Reading.field, if_neg (by omega)]
  exact ⟨trivial, ok, rfl, le_rfl⟩

/-! ### Little-endian words -/

/-- The bytes from the last to the first, each shifted in at the low end. -/
def shiftIn (w : ℕ) (bs : List U8) : BitVec w := bs.foldr (fun b v => v <<< 8 ||| b.setWidth w) 0

theorem toNat_shiftIn_toLE {w n : ℕ} (room : 256 ^ n ≤ 2 ^ w) (x : ℕ) :
    (shiftIn w (Codec.toLE n x)).toNat = x % 256 ^ n := by
  induction n generalizing x with
  | zero =>
    rw [pow_zero, Nat.mod_one]
    rfl
  | succ n ih =>
    rw [pow_succ] at room
    have below := ih (by omega) (x / 256)
    have small := Nat.mod_lt (x / 256) (Nat.pow_pos (n := n) (show 0 < 256 by decide))
    rw [← below] at small
    have byte : ((BitVec.ofNat 8 x).setWidth w).toNat = x % 256 := by
      have := Nat.mod_lt x (show 0 < 256 by decide)
      have := Nat.pow_pos (n := n) (show 0 < 256 by decide)
      rw [BitVec.toNat_setWidth, BitVec.toNat_ofNat, Nat.mod_eq_of_lt]
      omega
    change ((shiftIn w (Codec.toLE n (x / 256))) <<< 8 ||| (BitVec.ofNat 8 x).setWidth w).toNat = _
    rw [BitVec.toNat_or, BitVec.toNat_shiftLeft, Nat.shiftLeft_eq, byte,
      Nat.mod_eq_of_lt (by omega), Nat.mul_comm,
      ← Nat.two_pow_add_eq_or_of_lt (show x % 256 < 2 ^ 8 from Nat.mod_lt x (by decide)), below,
      Nat.pow_succ' (m := 256), Nat.mod_mul, Nat.add_comm]

/-- A little-endian word reads back. -/
theorem Reads.uint (n : ℕ) (x : BitVec (8 * n)) (missing : BitVec (8 * n)) :
    Reads (Reading.field n (shiftIn (8 * n)) missing) ((Codec.uint n).encode x) x := by
  have value : shiftIn (8 * n) ((Codec.uint n).encode x) = x := by
    have width : 256 ^ n = 2 ^ (8 * n) := by rw [show 256 = 2 ^ 8 from rfl, ← Nat.pow_mul]
    refine word_ext ?_
    change (shiftIn (8 * n) (Codec.toLE n x.toNat)).toNat = x.toNat
    rw [toNat_shiftIn_toLE (by omega), width, Nat.mod_eq_of_lt x.isLt]
  have reads : Reads (Reading.field n (shiftIn (8 * n)) missing) ((Codec.uint n).encode x) _ :=
    Reads.field ((Codec.uint n).length_encode x)
  rwa [value] at reads

/-- Bytes read back as they stand. -/
theorem Reads.raw {n : ℕ} {bs missing : List U8} (length : bs.length = n) :
    Reads (Reading.field n id missing) bs bs := Reads.field length

end Reading

end Antumbra.Math
