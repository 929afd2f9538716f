/-
# Accounts, seeds and derived addresses

Both chain versions derive a program's own accounts the same way: the seeds are
combined into one, by hashing when there are several, and the address is derived
from the program and that seed. The hash and the derivation belong to the
platform, so they are parameters here.
-/

import Antumbra.Math.Codec
import Mathlib.Algebra.GroupWithZero.Nat

namespace Antumbra

open Antumbra.Math

/-- The address of an account. -/
@[ext] structure AccountId where
  value : Bytes 32
  deriving DecidableEq

/-- The all-zero address. -/
def AccountId.default : AccountId := ⟨List.Vector.replicate 32 0⟩

/-- The seed of a program-derived account. -/
structure PdaSeed where
  value : Bytes 32
  deriving DecidableEq

/-- An address is stored as its bytes. -/
def accountIdCodec : Codec AccountId :=
  (Codec.bytes 32).map ⟨AccountId.value, AccountId.mk, fun _ => rfl, fun _ => rfl⟩

/-- What the platform supplies: a hash of byte strings, and the derivation of a
public program address. -/
structure Addressing (Program : Type) where
  sha256 : List U8 → Bytes 32
  forPublicPda : Program → PdaSeed → AccountId

/-- The UTF-8 bytes of a string. -/
def utf8 (s : String) : List U8 :=
  (s.toList.flatMap String.utf8EncodeChar).map UInt8.toBitVec

/-- A string seed, zero-padded to 32 bytes. -/
def seedFromStr (s : String) (short : (utf8 s).length ≤ 32) : Bytes 32 :=
  ⟨utf8 s ++ List.replicate (32 - (utf8 s).length) 0, by
    rw [List.length_append, List.length_replicate]
    omega⟩

/-! ### Strings as bytes -/

theorem length_utf8 (s : String) : (utf8 s).length = (s.toList.map Char.utf8Size).sum := by
  rw [utf8, List.length_map, List.length_flatMap]
  exact congrArg (fun f => (s.toList.map f).sum) (funext String.length_utf8EncodeChar)

/-- ASCII text is its own bytes. -/
theorem utf8_ascii {s : String} (ascii : ∀ c ∈ s.toList, c.toNat < 128) :
    utf8 s = s.toList.map fun c => BitVec.ofNat 8 c.toNat := by
  have single (c : Char) (mem : c ∈ s.toList) :
      (String.utf8EncodeChar c).map UInt8.toBitVec = [BitVec.ofNat 8 c.toNat] := by
    have small := ascii c mem
    rw [String.utf8EncodeChar, if_pos (show c.val.toNat ≤ 0x7f from Nat.le_of_lt_succ small)]
    rfl
  rw [utf8, List.map_flatMap, List.flatMap_congr single, List.map_eq_flatMap]

/-- Only ASCII text has ASCII bytes. -/
theorem ascii_of_utf8 {s : String} (ascii : ∀ b ∈ utf8 s, b.toNat < 128) :
    ∀ c ∈ s.toList, c.toNat < 128 := by
  intro c mem
  by_contra wide
  rw [not_lt] at wide
  -- the last byte of a longer encoding has its high bit set
  have last : UInt8.ofNat (c.toNat % 0x40 + 0x80) ∈ String.utf8EncodeChar c := by
    rw [String.utf8EncodeChar, if_neg (show ¬ c.val.toNat ≤ 0x7f from not_le.mpr wide)]
    split_ifs
    all_goals simp only [List.mem_cons, Char.toNat, true_or, or_true]
  have byte := ascii _ (List.mem_map_of_mem (List.mem_flatMap.mpr ⟨c, mem, last⟩))
  change (UInt8.ofNat (c.toNat % 0x40 + 0x80)).toNat < 128 at byte
  rw [UInt8.toNat_ofNat', Nat.mod_eq_of_lt (by omega)] at byte
  omega

variable {Program : Type} (p : Addressing Program)

/-- One seed is used as is, several are hashed together. -/
def combineSeeds : List (Bytes 32) → PdaSeed
  | [one] => ⟨one⟩
  | many => ⟨p.sha256 (many.flatMap List.Vector.toList)⟩

theorem combineSeeds_two (first second : Bytes 32) :
    combineSeeds p [first, second] = ⟨p.sha256 (first.toList ++ second.toList)⟩ := by
  change (⟨p.sha256 ([first, second].flatMap List.Vector.toList)⟩ : PdaSeed) = _
  rw [List.flatMap_cons, List.flatMap_cons, List.flatMap_nil, List.append_nil]

/-- The address of a program's account under one or more seeds. -/
def computePda (program : Program) (seeds : List (Bytes 32)) : AccountId :=
  p.forPublicPda program (combineSeeds p seeds)

/-- The seed word of every escrow: `"holding"`. -/
def holdingWord : Bytes 32 := seedFromStr "holding" (by decide)

end Antumbra
