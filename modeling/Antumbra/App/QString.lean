/-
# The view's strings

The view counts and classifies 16-bit units where the command line counts bytes. What Qt
documents of its strings, as far as the app reads texts with it.
-/

import Antumbra.Core.Address
import Antumbra.Math.Unicode

namespace Antumbra

open Antumbra.Math

namespace App

/-- A string of the view, in units of UTF-16. -/
abbrev QString := List U16

/-- The first of each ten decimal digits, where one unit is a digit. -/
def digitRows : List ℕ :=
  [0x0030, 0x0660, 0x06F0, 0x07C0, 0x0966, 0x09E6, 0x0A66, 0x0AE6, 0x0B66, 0x0BE6, 0x0C66, 0x0CE6,
    0x0D66, 0x0DE6, 0x0E50, 0x0ED0, 0x0F20, 0x1040, 0x1090, 0x17E0, 0x1810, 0x1946, 0x19D0, 0x1A80,
    0x1A90, 0x1B50, 0x1BB0, 0x1C40, 0x1C50, 0xA620, 0xA8D0, 0xA900, 0xA9D0, 0xA9F0, 0xAA50, 0xABF0,
    0xFF10]

/-- A decimal digit, of any script. -/
def isDigit (c : U16) : Bool :=
  digitRows.any fun row => decide (row ≤ c.toNat ∧ c.toNat < row + 10)

/-- White space: the controls and the separators. -/
def isSpace (c : U16) : Bool :=
  decide (0x09 ≤ c.toNat ∧ c.toNat ≤ 0x0D) || decide (0x2000 ≤ c.toNat ∧ c.toNat ≤ 0x200A) ||
    decide (c.toNat ∈ [0x20, 0x85, 0xA0, 0x1680, 0x2028, 0x2029, 0x202F, 0x205F, 0x3000])

/-- A character in Latin-1, zero if it has none. -/
def charLatin1 (c : U16) : U8 := if c.toNat ≤ 0xFF then c.setWidth 8 else 0

namespace QString

/-- The string of a text. -/
def ofText (s : String) : QString := Unicode.units s.toList

/-- The text of a string. -/
def toText (s : QString) : String := String.ofList (Unicode.chars s)

/-- The string without white space at its ends. -/
def trimmed (s : QString) : QString := (s.rdropWhile isSpace).dropWhile isSpace

/-- A string in Latin-1, with a question mark for every other character. -/
def toLatin1 (s : QString) : List U8 :=
  s.map fun c => if c.toNat ≤ 0xFF then c.setWidth 8 else 0x3F

def toUtf8 (s : QString) : List U8 := utf8 s.toText

variable {s : QString} {text : String}

@[simp] theorem toText_ofText (text : String) : (ofText text).toText = text := by
  rw [toText, ofText, Unicode.chars_units, String.ofList_toList]

theorem ofText_injective : Function.Injective ofText :=
  Function.LeftInverse.injective toText_ofText

/-! ### Trimming -/

theorem isSpace_lt (c : U16) (space : isSpace c = true) : c.toNat < 0xD800 := by
  simp only [isSpace, Bool.or_eq_true, decide_eq_true_eq, List.mem_cons, List.not_mem_nil,
    or_false] at space
  omega

/-- A trimmed text is a text. -/
theorem ofText_trimmed (text : String) :
    ofText (trimmed (ofText text)).toText = trimmed (ofText text) := by
  unfold trimmed ofText
  rw [Unicode.units_rdropWhile isSpace_lt, Unicode.units_dropWhile isSpace_lt, toText,
    Unicode.chars_units, String.toList_ofList]

/-- Nothing is dropped from the ends of a string where nothing is blank. -/
theorem dropEnds_eq {blank : U16 → Bool} (solid : ∀ c ∈ s, blank c = false) :
    (s.rdropWhile blank).dropWhile blank = s := by
  have keep {l : QString} (l_solid : ∀ c ∈ l, blank c = false) : l.dropWhile blank = l := by
    cases l with
    | nil => rfl
    | cons c l =>
      exact List.dropWhile_cons_of_neg (Bool.eq_false_iff.mp (l_solid c List.mem_cons_self))
  rw [List.rdropWhile, keep fun c mem => solid c (List.mem_reverse.mp mem), List.reverse_reverse,
    keep solid]

/-- Nothing is trimmed where nothing is white space. -/
theorem trimmed_eq (solid : ∀ c ∈ s, isSpace c = false) : trimmed s = s := dropEnds_eq solid

/-! ### ASCII -/

theorem ofText_ascii (ascii : ∀ c ∈ text.toList, c.toNat < 128) :
    ofText text = text.toList.map fun c => BitVec.ofNat 16 c.toNat :=
  Unicode.units_ascii ascii

theorem ascii_ofText_iff :
    (∀ c ∈ ofText text, c.toNat < 128) ↔ ∀ c ∈ text.toList, c.toNat < 128 :=
  Unicode.ascii_units_iff

/-- ASCII units are a text. -/
theorem exists_ofText (ascii : ∀ c ∈ s, c.toNat < 128) : ∃ text, ofText text = s := by
  obtain ⟨cs, units⟩ := Unicode.exists_units ascii
  exact ⟨String.ofList cs, by rw [ofText, String.toList_ofList, units]⟩

/-- ASCII text has a unit for every byte, and they are the same. -/
theorem toLatin1_ofText (ascii : ∀ c ∈ text.toList, c.toNat < 128) :
    toLatin1 (ofText text) = utf8 text := by
  rw [ofText_ascii ascii, utf8_ascii ascii, toLatin1, List.map_map]
  refine List.map_congr_left fun c mem => ?_
  have small := ascii c mem
  have unit : (BitVec.ofNat 16 c.toNat).toNat = c.toNat := by
    rw [BitVec.toNat_ofNat, Nat.mod_eq_of_lt (by omega)]
  rw [Function.comp_apply, if_pos (by omega)]
  apply word_ext
  rw [BitVec.toNat_setWidth, unit, BitVec.toNat_ofNat]

theorem length_ofText (ascii : ∀ c ∈ text.toList, c.toNat < 128) :
    (ofText text).length = (utf8 text).length := by
  rw [← toLatin1_ofText ascii, toLatin1, List.length_map]

theorem length_ofText_le (text : String) : (ofText text).length ≤ (utf8 text).length := by
  rw [length_utf8]
  exact Unicode.length_units_le text.toList

/-- Any other text has more bytes than units. -/
theorem length_ofText_lt (wide : ¬ ∀ c ∈ text.toList, c.toNat < 128) :
    (ofText text).length < (utf8 text).length := by
  push Not at wide
  obtain ⟨c, mem, wide⟩ := wide
  rw [length_utf8]
  exact Unicode.length_units_lt mem wide

end QString

end App

end Antumbra
