/-
# Fixed-length encodings

A record is written field by field, each field at a fixed length, integers with
the low byte first. A codec carries the two laws that make a stored record
trustworthy: what is written reads back, and only what was written reads. They
are proved once for each field shape and once for putting two fields together,
so a record's codec has them by construction.
-/

import Antumbra.Math.Word
import Mathlib.Data.Vector.Basic
import Mathlib.Logic.Equiv.Defs

namespace Antumbra.Math

/-- An array of `n` bytes. -/
abbrev Bytes (n : ℕ) := List.Vector U8 n

/-- Writing a value, and reading one off the front of a string of bytes. -/
structure Codec (α : Type) where
  /-- How many bytes a value takes. -/
  length : ℕ
  encode : α → List U8
  decode : List U8 → Option (α × List U8)
  length_encode : ∀ a, (encode a).length = length
  decode_encode : ∀ a rest, decode (encode a ++ rest) = some (a, rest)
  encode_decode : ∀ {bs a rest}, decode bs = some (a, rest) → bs = encode a ++ rest

namespace Codec

variable {α β : Type}

/-- Read a value that must take up all the bytes. -/
def readAll (c : Codec α) (bs : List U8) : Option α :=
  match c.decode bs with
  | some (a, []) => some a
  | _ => none

/-- Exactly the written strings read, and as what was written. -/
theorem readAll_eq_some_iff (c : Codec α) {bs : List U8} {a : α} :
    c.readAll bs = some a ↔ bs = c.encode a := by
  unfold readAll
  constructor
  · intro h
    split at h
    · next _ a' read =>
      cases h
      rw [c.encode_decode read, List.append_nil]
    · exact absurd h (by simp)
  · rintro rfl
    have read := c.decode_encode a []
    rw [List.append_nil] at read
    rw [read]

@[simp] theorem readAll_encode (c : Codec α) (a : α) : c.readAll (c.encode a) = some a :=
  c.readAll_eq_some_iff.mpr rfl

/-- Two values never share their bytes. -/
theorem encode_injective (c : Codec α) : Function.Injective c.encode := by
  intro a b same
  have read := c.readAll_encode a
  rw [same, c.readAll_encode, Option.some_inj] at read
  exact read.symm

theorem encode_ne_nil (c : Codec α) (h : c.length ≠ 0) (a : α) : c.encode a ≠ [] := by
  intro empty
  have len := c.length_encode a
  rw [empty] at len
  exact h len.symm

/-! ### Integers -/

/-- The `n` low bytes of a number, low byte first. -/
def toLE : ℕ → ℕ → List U8
  | 0, _ => []
  | n + 1, x => BitVec.ofNat 8 x :: toLE n (x / 256)

/-- Read a number of `n` bytes, low byte first. -/
def fromLE : ℕ → List U8 → Option (ℕ × List U8)
  | 0, bs => some (0, bs)
  | _ + 1, [] => none
  | n + 1, b :: bs => (fromLE n bs).map fun r => (b.toNat + 256 * r.1, r.2)

theorem length_toLE (n x : ℕ) : (toLE n x).length = n := by
  induction n generalizing x with
  | zero => rfl
  | succ n ih => simp [toLE, ih]

theorem fromLE_toLE (n x : ℕ) (rest : List U8) :
    fromLE n (toLE n x ++ rest) = some (x % 256 ^ n, rest) := by
  induction n generalizing x with
  | zero => simp [toLE, fromLE, Nat.mod_one]
  | succ n ih =>
    simp only [toLE, List.cons_append, fromLE, ih, Option.map_some, BitVec.toNat_ofNat]
    rw [Nat.pow_succ 256 n, Nat.mul_comm (256 ^ n), Nat.mod_mul]

theorem toLE_of_fromLE {n x : ℕ} {bs rest : List U8} (read : fromLE n bs = some (x, rest)) :
    x < 256 ^ n ∧ bs = toLE n x ++ rest := by
  induction n generalizing bs x with
  | zero =>
    simp only [fromLE, Option.some.injEq, Prod.mk.injEq] at read
    obtain ⟨rfl, rfl⟩ := read
    simp [toLE]
  | succ n ih =>
    cases bs with
    | nil => simp [fromLE] at read
    | cons b bs =>
      simp only [fromLE, Option.map_eq_some_iff, Prod.exists, Prod.mk.injEq] at read
      obtain ⟨y, rest', read, rfl, rfl⟩ := read
      obtain ⟨below, rfl⟩ := ih read
      -- the first byte is the low digit, the bytes after it are the number above
      have byte := b.isLt
      have low : BitVec.ofNat 8 (b.toNat + 256 * y) = b := by
        apply word_ext
        rw [BitVec.toNat_ofNat]
        omega
      have high : (b.toNat + 256 * y) / 256 = y := by omega
      refine ⟨?_, ?_⟩
      · rw [Nat.pow_succ]
        omega
      · rw [toLE, low, high, List.cons_append]

/-- An unsigned integer of `n` bytes. -/
def uint (n : ℕ) : Codec (BitVec (8 * n)) where
  length := n
  encode x := toLE n x.toNat
  decode bs := (fromLE n bs).map fun r => (BitVec.ofNat (8 * n) r.1, r.2)
  length_encode x := length_toLE n x.toNat
  decode_encode x rest := by
    have fits : x.toNat < 256 ^ n := by
      rw [show 256 = 2 ^ 8 from rfl, ← Nat.pow_mul]
      exact x.isLt
    rw [fromLE_toLE, Nat.mod_eq_of_lt fits, Option.map_some, BitVec.ofNat_toNat,
      BitVec.setWidth_eq]
  encode_decode {bs x rest} read := by
    simp only [Option.map_eq_some_iff, Prod.exists, Prod.mk.injEq] at read
    obtain ⟨y, rest', read, rfl, rfl⟩ := read
    obtain ⟨below, rfl⟩ := toLE_of_fromLE read
    rw [show 256 = 2 ^ 8 from rfl, ← Nat.pow_mul] at below
    rw [BitVec.toNat_ofNat, Nat.mod_eq_of_lt below]

def u8 : Codec U8 := uint 1
def u32 : Codec U32 := uint 4
def u64 : Codec U64 := uint 8
def u128 : Codec U128 := uint 16

/-! ### Arrays, pairs and records -/

/-- An array of bytes, as it stands. -/
def bytes (n : ℕ) : Codec (Bytes n) where
  length := n
  encode v := v.toList
  decode bs := if h : n ≤ bs.length then some (⟨bs.take n, by simp [h]⟩, bs.drop n) else none
  length_encode v := v.toList_length
  decode_encode v rest := by
    obtain ⟨bs, rfl⟩ := v
    simp
  encode_decode {bs v rest} read := by
    split at read
    · simp only [Option.some.injEq] at read
      obtain ⟨rfl, rfl⟩ := read
      exact (List.take_append_drop n bs).symm
    · exact absurd read (by simp)

/-- One value after another. -/
def prod (c : Codec α) (d : Codec β) : Codec (α × β) where
  length := c.length + d.length
  encode p := c.encode p.1 ++ d.encode p.2
  decode bs := (c.decode bs).bind fun r => (d.decode r.2).map fun r' => ((r.1, r'.1), r'.2)
  length_encode p := by rw [List.length_append, c.length_encode, d.length_encode]
  decode_encode p rest := by
    rw [List.append_assoc, c.decode_encode, Option.bind_some, d.decode_encode, Option.map_some]
  encode_decode {bs p rest} read := by
    simp only [Option.bind_eq_some_iff, Option.map_eq_some_iff, Prod.exists, Prod.mk.injEq] at read
    obtain ⟨a, mid, first, b, rest', second, rfl, rfl⟩ := read
    rw [c.encode_decode first, d.encode_decode second, List.append_assoc]

/-- The same bytes, read as another type. -/
def map (c : Codec α) (e : β ≃ α) : Codec β where
  length := c.length
  encode b := c.encode (e b)
  decode bs := (c.decode bs).map fun r => (e.symm r.1, r.2)
  length_encode b := c.length_encode (e b)
  decode_encode b rest := by
    rw [c.decode_encode, Option.map_some, e.symm_apply_apply]
  encode_decode {bs b rest} read := by
    simp only [Option.map_eq_some_iff, Prod.exists, Prod.mk.injEq] at read
    obtain ⟨a, rest', read, rfl, rfl⟩ := read
    rw [e.apply_symm_apply]
    exact c.encode_decode read

/-! ### Codecs of every string -/

/-- Every string that is long enough begins with a value. -/
def Total (c : Codec α) : Prop := ∀ bs, c.length ≤ bs.length → ∃ r, c.decode bs = some r

/-- A string of the right length is the encoding of a value. -/
theorem Total.exists_encode {c : Codec α} (total : c.Total) {bs : List U8}
    (len : bs.length = c.length) : ∃ a, bs = c.encode a := by
  obtain ⟨⟨a, rest⟩, read⟩ := total bs len.ge
  have whole := c.encode_decode read
  have none_left := congrArg List.length whole
  rw [List.length_append, c.length_encode, len] at none_left
  obtain rfl : rest = [] := List.eq_nil_of_length_eq_zero (by omega)
  exact ⟨a, by rwa [List.append_nil] at whole⟩

theorem exists_fromLE {n : ℕ} {bs : List U8} (long : n ≤ bs.length) :
    ∃ r, fromLE n bs = some r := by
  induction n generalizing bs with
  | zero => exact ⟨_, rfl⟩
  | succ n ih =>
    cases bs with
    | nil => cases long
    | cons b bs =>
      obtain ⟨r, read⟩ := ih (Nat.le_of_succ_le_succ long)
      exact ⟨_, by rw [fromLE, read, Option.map_some]⟩

theorem total_uint (n : ℕ) : (uint n).Total := by
  intro bs long
  obtain ⟨r, read⟩ := exists_fromLE long
  exact ⟨_, congrArg (Option.map _) read⟩

theorem total_bytes (n : ℕ) : (bytes n).Total := fun _ long => ⟨_, dif_pos long⟩

theorem Total.prod {c : Codec α} {d : Codec β} (first : c.Total) (second : d.Total) :
    (c.prod d).Total := by
  intro bs long
  change c.length + d.length ≤ bs.length at long
  obtain ⟨⟨a, rest⟩, read⟩ := first bs (Nat.le_of_add_right_le long)
  -- what the first value leaves is long enough for the second
  have whole := congrArg List.length (c.encode_decode read)
  rw [List.length_append, c.length_encode] at whole
  obtain ⟨r, read'⟩ := second rest (by omega)
  refine ⟨((a, r.1), r.2), ?_⟩
  change ((c.decode bs).bind fun r => (d.decode r.2).map fun r' => ((r.1, r'.1), r'.2)) = _
  rw [read, Option.bind_some, read', Option.map_some]

theorem Total.map {c : Codec α} (total : c.Total) (e : β ≃ α) : (c.map e).Total := by
  intro bs long
  obtain ⟨r, read⟩ := total bs long
  exact ⟨_, congrArg (Option.map _) read⟩

end Codec

end Antumbra.Math
