/-
# Ids on the command line

`--schedule-id` and `--batch-id` take 64 hex digits or a text of at most 32 bytes, which is
padded with zeros.
-/

import Antumbra.Core.Address
import Antumbra.Math.Hex

namespace Antumbra

open Antumbra.Math

namespace Cli

theorem length_of_hex {s : String} (length : (utf8 s).length = 64) {bytes : List U8}
    (read : Hex.decode (utf8 s) = some bytes) : bytes.length = 32 := by
  have pairs := (Hex.decode_eq_some read).1
  omega

/-- A 32-byte id: 64 hex digits, or text of at most 32 bytes, zero-padded. -/
def id32 (s : String) : Except String (Bytes 32) :=
  if hex : (utf8 s).length = 64 ∧ (Hex.decode (utf8 s)).isSome then
    .ok ⟨(Hex.decode (utf8 s)).get hex.2, length_of_hex hex.1 (Option.some_get hex.2).symm⟩
  else if short : (utf8 s).length ≤ 32 then
    .ok (seedFromStr s short)
  else
    .error ("an id is 64 hex digits or at most 32 bytes of text: " ++ s)

variable {s : String} {id : Bytes 32}

/-- Hex reads as the bytes it writes. -/
theorem id32_of_hex (length : (utf8 s).length = 64)
    (read : Hex.decode (utf8 s) = some id.toList) : id32 s = .ok id := by
  have hex : (utf8 s).length = 64 ∧ (Hex.decode (utf8 s)).isSome := ⟨length, by rw [read]; rfl⟩
  rw [id32, dif_pos hex]
  refine congrArg Except.ok (Subtype.ext ?_)
  exact Option.get_of_eq_some hex.2 read

/-- A short text reads as its bytes, padded. -/
theorem id32_of_short (short : (utf8 s).length ≤ 32) : id32 s = .ok (seedFromStr s short) := by
  rw [id32, dif_neg (fun hex => by omega), dif_pos short]

/-- An id is read as hex or as text. -/
theorem id32_eq_ok (read : id32 s = .ok id) :
    ((utf8 s).length = 64 ∧ Hex.decode (utf8 s) = some id.toList) ∨
      ∃ short : (utf8 s).length ≤ 32, seedFromStr s short = id := by
  unfold id32 at read
  split at read
  · next hex =>
    obtain rfl := Except.ok.inj read
    exact .inl ⟨hex.1, (Option.some_get hex.2).symm⟩
  split at read
  · next short => exact .inr ⟨short, Except.ok.inj read⟩
  · cases read

end Cli

end Antumbra
