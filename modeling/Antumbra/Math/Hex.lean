/-
# Bytes in hex

Two digits write a byte. A strict reader takes whole pairs of digits and nothing else; a
lenient one skips what is no digit and pairs the digits from the end. On a text that the
strict reader takes they agree.
-/

import Antumbra.Math.Word
import Mathlib.Tactic.IntervalCases

namespace Antumbra.Math.Hex

/-- The value of a hex digit. -/
def value (c : U8) : Option ℕ :=
  if 0x30 ≤ c.toNat ∧ c.toNat ≤ 0x39 then
    some (c.toNat - 0x30)
  else if 0x61 ≤ c.toNat ∧ c.toNat ≤ 0x66 then
    some (c.toNat - 0x61 + 10)
  else if 0x41 ≤ c.toNat ∧ c.toNat ≤ 0x46 then
    some (c.toNat - 0x41 + 10)
  else
    none

/-- The strict reader: pairs of digits to the end. -/
def decode : List U8 → Option (List U8)
  | [] => some []
  | [_] => none
  | h :: l :: rest => do
    let h ← value h
    let l ← value l
    let bytes ← decode rest
    return BitVec.ofNat 8 (h * 16 + l) :: bytes

/-- Bytes from digits, both low end first. -/
def pairs : List ℕ → List U8
  | [] => []
  | [l] => [BitVec.ofNat 8 l]
  | l :: h :: rest => BitVec.ofNat 8 (h * 16 + l) :: pairs rest

/-- The lenient reader: what is no digit is skipped, and an odd digit at the front is a byte
of its own. -/
def fromHex (text : List U8) : List U8 := (pairs (text.reverse.filterMap value)).reverse

/-- The letter of a digit, in lower case. -/
def letter (d : ℕ) : U8 := BitVec.ofNat 8 (if d < 10 then 0x30 + d else 0x61 + d - 10)

variable {c : U8} {d : ℕ} {text bytes : List U8}

/-! ### Digits -/

/-- A digit is less than 16 and an ASCII character. -/
theorem value_eq_some (digit : value c = some d) : d < 16 ∧ c.toNat < 128 := by
  unfold value at digit
  split_ifs at digit
  all_goals
    rw [Option.some_inj] at digit
    omega

theorem value_letter (digit : d < 16) : value (letter d) = some d := by
  interval_cases d <;> rfl

/-- The two digits of a byte make it up. -/
theorem byte_eq (c : U8) : BitVec.ofNat 8 (c.toNat / 16 * 16 + c.toNat % 16) = c := by
  rw [Nat.div_add_mod' c.toNat 16, BitVec.ofNat_toNat, BitVec.setWidth_eq]

theorem digits_lt (c : U8) : c.toNat / 16 < 16 ∧ c.toNat % 16 < 16 :=
  ⟨Nat.div_lt_of_lt_mul c.isLt, Nat.mod_lt _ (by decide)⟩

/-! ### The strict reader -/

theorem decode_cons_eq_some_iff {h l : U8} :
    decode (h :: l :: text) = some bytes ↔ ∃ x y rest, value h = some x ∧ value l = some y ∧
      decode text = some rest ∧ BitVec.ofNat 8 (x * 16 + y) :: rest = bytes := by
  simp only [decode, Option.bind_eq_bind, Option.bind_eq_some_iff, Option.pure_def,
    Option.some_inj, exists_and_left]

/-- Two digits a byte, and nothing else. -/
theorem decode_eq_some (read : decode text = some bytes) :
    text.length = 2 * bytes.length ∧ ∀ c ∈ text, (value c).isSome = true := by
  induction text using decode.induct generalizing bytes with
  | case1 =>
    obtain rfl := Option.some.inj read
    exact ⟨rfl, by simp⟩
  | case2 c => exact absurd read (by simp [decode])
  | case3 h l text ih =>
    obtain ⟨x, y, rest, high, low, others, rfl⟩ := decode_cons_eq_some_iff.mp read
    obtain ⟨length, digits⟩ := ih others
    refine ⟨by rw [List.length_cons, List.length_cons, List.length_cons, length]; omega, ?_⟩
    simp only [List.forall_mem_cons, high, low, Option.isSome_some, true_and]
    exact digits

/-- An even number of digits reads. -/
theorem exists_decode {n : ℕ} (even : text.length = 2 * n)
    (digits : ∀ c ∈ text, (value c).isSome = true) : ∃ bytes, decode text = some bytes := by
  induction text using decode.induct generalizing n with
  | case1 => exact ⟨[], rfl⟩
  | case2 c =>
    rw [List.length_singleton] at even
    omega
  | case3 h l text ih =>
    simp only [List.forall_mem_cons] at digits
    obtain ⟨x, high⟩ := Option.isSome_iff_exists.mp digits.1
    obtain ⟨y, low⟩ := Option.isSome_iff_exists.mp digits.2.1
    rw [List.length_cons, List.length_cons] at even
    obtain ⟨rest, others⟩ := ih (n := n - 1) (by omega) digits.2.2
    exact ⟨_, decode_cons_eq_some_iff.mpr ⟨x, y, rest, high, low, others, rfl⟩⟩

/-- Bytes read back from their digits. -/
theorem decode_letters (bytes : List U8) :
    decode (bytes.flatMap fun c => [letter (c.toNat / 16), letter (c.toNat % 16)]) =
      some bytes := by
  induction bytes with
  | nil => rfl
  | cons c bytes ih =>
    obtain ⟨high, low⟩ := digits_lt c
    exact decode_cons_eq_some_iff.mpr
      ⟨_, _, bytes, value_letter high, value_letter low, ih, by rw [byte_eq]⟩

/-! ### The lenient reader -/

theorem pairs_digits (bytes : List U8) :
    pairs (bytes.flatMap fun c => [c.toNat % 16, c.toNat / 16]) = bytes := by
  induction bytes with
  | nil => rfl
  | cons c bytes ih =>
    rw [List.flatMap_cons, List.cons_append, List.cons_append, List.nil_append, pairs, ih, byte_eq]

/-- What the strict reader takes is the digits of its bytes. -/
theorem filterMap_of_decode (read : decode text = some bytes) :
    text.filterMap value = bytes.flatMap fun c => [c.toNat / 16, c.toNat % 16] := by
  induction text using decode.induct generalizing bytes with
  | case1 =>
    obtain rfl := Option.some.inj read
    rfl
  | case2 c => exact absurd read (by simp [decode])
  | case3 h l text ih =>
    obtain ⟨x, y, rest, high, low, others, rfl⟩ := decode_cons_eq_some_iff.mp read
    have x_lt := (value_eq_some high).1
    have y_lt := (value_eq_some low).1
    have byte : (BitVec.ofNat 8 (x * 16 + y)).toNat = x * 16 + y := by
      rw [BitVec.toNat_ofNat, Nat.mod_eq_of_lt (by omega)]
    rw [List.filterMap_cons_some high, List.filterMap_cons_some low, ih others, List.flatMap_cons,
      byte, show (x * 16 + y) / 16 = x by omega, show (x * 16 + y) % 16 = y by omega]
    rfl

/-- The lenient reader agrees with the strict one. -/
theorem fromHex_of_decode (read : decode text = some bytes) : fromHex text = bytes := by
  have digits : text.reverse.filterMap value =
      bytes.reverse.flatMap fun c => [c.toNat % 16, c.toNat / 16] := by
    rw [List.filterMap_reverse, filterMap_of_decode read, List.reverse_flatMap]
    rfl
  rw [fromHex, digits, pairs_digits, List.reverse_reverse]

end Antumbra.Math.Hex
