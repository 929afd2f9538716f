/-
# Typed ids

The view prints an id as text where it is text and as hex where it is not, and whoever types
it back, into the view or on the command line, names the same 32 bytes. The two readers count
and classify differently: the view takes the decimal digits of every script for hex digits.
-/

import Antumbra.App.QString
import Antumbra.App.Texts
import Antumbra.Cli.Ids

namespace Antumbra

open Antumbra.Math

namespace App

open QString

/-- What the view takes for a hex digit. -/
def isHexUnit (c : U16) : Bool :=
  isDigit c || decide (0x61 ≤ c.toNat ∧ c.toNat ≤ 0x66) ||
    decide (0x41 ≤ c.toNat ∧ c.toNat ≤ 0x46)

/-- A 32-byte id as it is typed into the view. -/
def idBytes (raw : QString) : Except String (List U8) :=
  let s := trimmed raw
  if s.length = 64 ∧ s.all isHexUnit = true then
    .ok (Hex.fromHex s.toLatin1)
  else
    let utf8 := s.toUtf8
    if utf8 = [] ∨ 32 < utf8.length then
      .error "An id is 64 hex digits, or text of at most 32 bytes."
    else
      .ok (utf8 ++ List.replicate (32 - utf8.length) 0)

/-- Digits to the view but not all of them hex digits: 64 units, one beyond ASCII. -/
def MixedDigits (s : QString) : Prop :=
  s.length = 64 ∧ s.all isHexUnit = true ∧ ∃ c ∈ s, 128 ≤ c.toNat

/-- A typed text without the white space around it. -/
def typed (s : String) : String := (trimmed (ofText s)).toText

/-- What the view reads is 32 bytes and the command line's reading, and what the command line
reads of a text that is not empty the view reads too. -/
def ReadAlike (s : String) : Prop :=
  (∀ bytes, idBytes (ofText s) = .ok bytes →
    bytes.length = 32 ∧ ∃ id, Cli.id32 (typed s) = .ok id ∧ id.toList = bytes) ∧
  (typed s ≠ "" → ∀ id, Cli.id32 (typed s) = .ok id →
    ∃ bytes, idBytes (ofText s) = .ok bytes)

variable {raw : QString} {text : String} {bytes : List U8} {id : Bytes 32}

/-! ### The two readers -/

theorem isHexUnit_ofNat : ∀ n < 128,
    isHexUnit (BitVec.ofNat 16 n) = (Hex.value (BitVec.ofNat 8 n)).isSome := by
  decide +kernel

theorem all_isHexUnit_iff (ascii : ∀ c ∈ text.toList, c.toNat < 128) :
    (ofText text).all isHexUnit = true ↔ ∀ b ∈ utf8 text, (Hex.value b).isSome = true := by
  rw [ofText_ascii ascii, utf8_ascii ascii, List.all_map, List.all_eq_true, List.forall_mem_map]
  refine forall₂_congr fun c mem => ?_
  rw [Function.comp_apply, isHexUnit_ofNat _ (ascii c mem)]

theorem ofText_eq_nil_iff : ofText text = [] ↔ text = "" :=
  ofText_injective.eq_iff' rfl

/-- A text that is not empty has bytes. -/
theorem utf8_ne_nil (some : text ≠ "") : utf8 text ≠ [] := by
  intro none
  have units := length_ofText_le text
  rw [none, List.length_nil] at units
  exact some (ofText_eq_nil_iff.mp (List.eq_nil_of_length_eq_zero (by omega)))

/-- The view reads hex, or a text that is not empty and short. -/
theorem idBytes_eq_ok_iff (trim : trimmed raw = ofText text) :
    idBytes raw = .ok bytes ↔
      ((ofText text).length = 64 ∧ (ofText text).all isHexUnit = true ∧
        Hex.fromHex (toLatin1 (ofText text)) = bytes) ∨
      (¬ ((ofText text).length = 64 ∧ (ofText text).all isHexUnit = true) ∧ utf8 text ≠ [] ∧
        (utf8 text).length ≤ 32 ∧
          utf8 text ++ List.replicate (32 - (utf8 text).length) 0 = bytes) := by
  unfold idBytes
  dsimp only
  rw [trim, toUtf8, toText_ofText]
  split
  · next hex => simp only [Except.ok.injEq, hex, true_and, not_true, false_and, or_false]
  · next other =>
    have branch : ¬ ((ofText text).length = 64 ∧ (ofText text).all isHexUnit = true ∧
        Hex.fromHex (toLatin1 (ofText text)) = bytes) := fun h => other ⟨h.1, h.2.1⟩
    split
    · next bad =>
      simp only [reduceCtorEq, branch, other, not_false_eq_true, true_and, false_or, false_iff]
      rintro ⟨some, short, -⟩
      exact bad.elim some (by omega)
    · next good =>
      rw [not_or, not_lt] at good
      simp only [Except.ok.injEq, branch, other, not_false_eq_true, true_and, false_or, good.1,
        good.2, ne_eq]

/-- What the command line reads, the view reads as the same bytes. -/
theorem idBytes_of_id32 (trim : trimmed raw = ofText text) (some : text ≠ "")
    (read : Cli.id32 text = .ok id) : idBytes raw = .ok id.toList := by
  rw [idBytes_eq_ok_iff trim]
  rcases Cli.id32_eq_ok read with ⟨length, hex⟩ | ⟨short, rfl⟩
  · obtain ⟨-, digits⟩ := Hex.decode_eq_some hex
    have ascii : ∀ c ∈ text.toList, c.toNat < 128 := by
      refine ascii_of_utf8 fun b mem => ?_
      obtain ⟨d, value⟩ := Option.isSome_iff_exists.mp (digits b mem)
      exact (Hex.value_eq_some value).2
    refine .inl ⟨(length_ofText ascii).trans length, (all_isHexUnit_iff ascii).mpr digits, ?_⟩
    rw [toLatin1_ofText ascii, Hex.fromHex_of_decode hex]
  · have units := length_ofText_le text
    exact .inr ⟨fun hex => by omega, utf8_ne_nil some, short, rfl⟩

/-- What the view reads, unless it is mixed digits, the command line reads as the same bytes. -/
theorem id32_of_idBytes (trim : trimmed raw = ofText text) (pure : ¬ MixedDigits (trimmed raw))
    (read : idBytes raw = .ok bytes) : ∃ id, Cli.id32 text = .ok id ∧ id.toList = bytes := by
  rw [trim] at pure
  rcases (idBytes_eq_ok_iff trim).mp read with ⟨length, hex, rfl⟩ | ⟨-, -, short, rfl⟩
  · have units : ∀ c ∈ ofText text, c.toNat < 128 := fun c mem =>
      not_le.mp fun wide => pure ⟨length, hex, c, mem, wide⟩
    have ascii := ascii_ofText_iff.mp units
    rw [length_ofText ascii] at length
    obtain ⟨bytes, digits⟩ := Hex.exists_decode (n := 32) length ((all_isHexUnit_iff ascii).mp hex)
    refine ⟨⟨bytes, Cli.length_of_hex length digits⟩, Cli.id32_of_hex length digits, ?_⟩
    rw [toLatin1_ofText ascii, Hex.fromHex_of_decode digits]
    rfl
  · exact ⟨_, Cli.id32_of_short short, rfl⟩

/-- Mixed digits are too long for the command line. -/
theorem id32_of_mixed (trim : trimmed raw = ofText text) (mixed : MixedDigits (trimmed raw)) :
    Cli.id32 text ≠ .ok id := by
  obtain ⟨length, -, c, mem, wide⟩ := mixed
  rw [trim] at length mem
  have long := length_ofText_lt fun ascii => absurd (ascii_ofText_iff.mpr ascii c mem) (by omega)
  intro read
  rcases Cli.id32_eq_ok read with ⟨bytes, -⟩ | ⟨short, -⟩
  · omega
  · omega

theorem trimmed_typed (s : String) : trimmed (ofText s) = ofText (typed s) :=
  (ofText_trimmed s).symm

/-- The two readers agree exactly on what is not mixed digits. -/
theorem readAlike_iff (s : String) : ReadAlike s ↔ ¬ MixedDigits (trimmed (ofText s)) := by
  have trim := trimmed_typed s
  refine ⟨fun alike mixed => ?_, fun pure => ⟨fun bytes read => ?_, fun some id read => ?_⟩⟩
  · -- the view reads something, the command line nothing
    have hex := mixed
    rw [trim] at hex
    have view := (idBytes_eq_ok_iff trim).mpr (.inl ⟨hex.1, hex.2.1, rfl⟩)
    obtain ⟨-, id, read, -⟩ := alike.1 _ view
    exact id32_of_mixed trim mixed read
  · obtain ⟨id, command, rfl⟩ := id32_of_idBytes trim pure read
    exact ⟨id.toList_length, id, command, rfl⟩
  · exact ⟨id.toList, idBytes_of_id32 trim some read⟩

/-- Sixty-four Arabic digits three. -/
def arabicThrees : String := String.ofList (List.replicate 64 (Char.ofNat 0x663))

/-- The view reads them as no bytes and reports no error; the command line refuses them. -/
theorem arabicThrees_not_readAlike :
    idBytes (ofText arabicThrees) = .ok [] ∧ ¬ ReadAlike arabicThrees := by
  have read : idBytes (ofText arabicThrees) = .ok [] := by decide +kernel
  exact ⟨read, fun alike => absurd (alike.1 [] read).1 (by decide)⟩

/-! ### Printed ids -/

/-- A text without spaces and controls is not trimmed. -/
theorem trimmed_printable (printable : ∀ c ∈ text.toList, 0x21 ≤ c.toNat ∧ c.toNat < 128) :
    trimmed (ofText text) = ofText text := by
  have solid : ∀ n < 128, 0x21 ≤ n → isSpace (BitVec.ofNat 16 n) = false := by decide +kernel
  rw [ofText_ascii fun c mem => (printable c mem).2]
  refine trimmed_eq fun u mem => ?_
  obtain ⟨c, there, rfl⟩ := List.mem_map.mp mem
  exact solid _ (printable c there).2 (printable c there).1

/-- The digit of a half byte. -/
def hexDigit (n : ℕ) : Char := Char.ofNat (if n < 10 then '0'.toNat + n else 'a'.toNat + n - 10)

theorem toList_toHex (bytes : List U8) : (toHex bytes).toList =
    bytes.flatMap fun c => [hexDigit (c.toNat / 16), hexDigit (c.toNat % 16)] :=
  String.toList_ofList

theorem hexDigit_spec : ∀ n < 16, 0x21 ≤ (hexDigit n).toNat ∧ (hexDigit n).toNat < 128 ∧
    BitVec.ofNat 8 (hexDigit n).toNat = Hex.letter n := by
  decide

theorem toHex_printable (bytes : List U8) :
    ∀ c ∈ (toHex bytes).toList, 0x21 ≤ c.toNat ∧ c.toNat < 128 := by
  intro c mem
  rw [toList_toHex] at mem
  obtain ⟨b, -, digit⟩ := List.mem_flatMap.mp mem
  obtain ⟨high, low⟩ := Hex.digits_lt b
  rcases List.mem_cons.mp digit with rfl | digit
  · exact ⟨(hexDigit_spec _ high).1, (hexDigit_spec _ high).2.1⟩
  · obtain rfl := List.mem_singleton.mp digit
    exact ⟨(hexDigit_spec _ low).1, (hexDigit_spec _ low).2.1⟩

/-- The command line reads hex back. -/
theorem id32_toHex (id : Bytes 32) : Cli.id32 (toHex id.toList) = .ok id := by
  have letters : utf8 (toHex id.toList) =
      id.toList.flatMap fun c => [Hex.letter (c.toNat / 16), Hex.letter (c.toNat % 16)] := by
    rw [utf8_ascii fun c mem => (toHex_printable id.toList c mem).2, toList_toHex,
      List.map_flatMap]
    refine List.flatMap_congr fun c mem => ?_
    obtain ⟨high, low⟩ := Hex.digits_lt c
    rw [List.map_cons, List.map_cons, List.map_nil, (hexDigit_spec _ high).2.2,
      (hexDigit_spec _ low).2.2]
  have read := Hex.decode_letters id.toList
  rw [← letters] at read
  refine Cli.id32_of_hex ?_ read
  rw [(Hex.decode_eq_some read).1, id.toList_length]

/-- Bytes are those before the zeros at the end, padded. -/
theorem padded (bytes : List U8) :
    (bytes.reverse.dropWhile (· = 0)).reverse ++
      List.replicate (bytes.length - (bytes.reverse.dropWhile (· = 0)).reverse.length) 0 =
        bytes := by
  have split := congrArg List.reverse
    (@List.takeWhile_append_dropWhile _ (fun c => decide (c = 0)) bytes.reverse)
  rw [List.reverse_append, List.reverse_reverse] at split
  have zeros : (bytes.reverse.takeWhile (· = 0)).reverse =
      List.replicate (bytes.reverse.takeWhile (· = 0)).reverse.length 0 := by
    refine List.eq_replicate_length.mpr fun c mem => ?_
    have all := List.all_eq_true.mp (@List.all_takeWhile _ (fun c => decide (c = 0)) bytes.reverse)
    exact of_decide_eq_true (all c (List.mem_reverse.mp mem))
  have count := congrArg List.length split
  rw [List.length_append] at count
  conv_rhs => rw [← split, zeros]
  rw [← count, Nat.add_sub_cancel_left]

/-- Printable bytes are the bytes of their text. -/
theorem utf8_printable (printable : ∀ c ∈ bytes, 0x21 ≤ c.toNat ∧ c.toNat < 128) :
    utf8 (String.ofList (bytes.map fun c => Char.ofNat c.toNat)) = bytes ∧
      ∀ c ∈ (String.ofList (bytes.map fun c => Char.ofNat c.toNat)).toList,
        0x21 ≤ c.toNat ∧ c.toNat < 128 := by
  have letters : ∀ c ∈ (String.ofList (bytes.map fun c => Char.ofNat c.toNat)).toList,
      0x21 ≤ c.toNat ∧ c.toNat < 128 := by
    intro c mem
    rw [String.toList_ofList] at mem
    obtain ⟨b, there, rfl⟩ := List.mem_map.mp mem
    rw [Unicode.toNat_ofNat (printable b there).2]
    exact printable b there
  refine ⟨?_, letters⟩
  rw [utf8_ascii fun c mem => (letters c mem).2, String.toList_ofList, List.map_map]
  refine (List.map_congr_left fun b mem => ?_).trans (List.map_id bytes)
  rw [Function.comp_apply, Unicode.toNat_ofNat (printable b mem).2, BitVec.ofNat_toNat,
    BitVec.setWidth_eq, id]

/-- The command line reads a printed id back, and the view does not trim it. -/
theorem id32_idText (id : Bytes 32) :
    Cli.id32 (idText id.toList) = .ok id ∧
      ∀ c ∈ (idText id.toList).toList, 0x21 ≤ c.toNat ∧ c.toNat < 128 := by
  have pad := padded id.toList
  rw [id.toList_length] at pad
  unfold idText
  dsimp only
  generalize (id.toList.reverse.dropWhile (· = 0)).reverse = text at pad ⊢
  split
  · next printable =>
    obtain ⟨-, visible, -⟩ := printable
    obtain ⟨bytes, letters⟩ := utf8_printable fun c mem =>
      ⟨(visible c mem).1, Nat.lt_of_le_of_lt (visible c mem).2 (by decide)⟩
    have count := congrArg List.length pad
    rw [List.length_append, id.toList_length] at count
    have short : text.length ≤ 32 := by omega
    rw [← bytes] at short
    refine ⟨(Cli.id32_of_short short).trans (congrArg Except.ok (Subtype.ext ?_)), letters⟩
    change utf8 _ ++ List.replicate (32 - (utf8 _).length) 0 = id.toList
    rw [bytes, pad]
  · exact ⟨id32_toHex id, toHex_printable id.toList⟩

/-- An id's text reads back as the id, on the command line and in the view. -/
theorem idText_reads_back (id : Bytes 32) :
    Cli.id32 (idText id.toList) = .ok id ∧
      idBytes (ofText (idText id.toList)) = .ok id.toList := by
  obtain ⟨read, printable⟩ := id32_idText id
  have some : idText id.toList ≠ "" := by
    -- only the zero id could be read from nothing, and its text is hex
    intro empty
    have zero := read
    rw [empty, Cli.id32_of_short (by decide)] at zero
    obtain rfl := Except.ok.inj zero
    exact absurd empty (by decide)
  exact ⟨read, idBytes_of_id32 (trimmed_printable printable) some read⟩

end App

end Antumbra
