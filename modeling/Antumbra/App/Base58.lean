/-
# Ids in base 58

The explorer and the view name accounts by text. A 32-byte id written in base 58 reads
back as the id, so the app may compare texts where the chain compares accounts.
-/

import Antumbra.App.QString
import Antumbra.App.Schedule
import Antumbra.Math.Radix
import Mathlib.Data.List.GetD
import Mathlib.Data.List.TakeWhile

namespace Antumbra

open Antumbra.Math

namespace App

/-- The value of a letter, if it is one. -/
def base58Digit (ch : Char) : Option ℕ :=
  if ch ∈ kAlphabet then some (kAlphabet.idxOf ch) else none

/-- Multiply bytes, low end first, by 58 and add a letter's value; nothing past a character
that is no letter. -/
def unbase58Step (bytes : List ℕ) (ch : Char) : Option (List ℕ) :=
  (base58Digit ch).map (Radix.push 256 58 bytes)

/-- The 32 bytes a text names, or none. -/
def unbase58 (s : String) : List U8 :=
  if s = "" ∨ 44 < s.length then
    []
  else
    match s.toList.foldlM unbase58Step [] with
    | none => []
    | some bytes =>
      let leading := s.toList.takeWhile (· = '1')
      let bytes := (bytes ++ List.replicate leading.length 0).reverse
      if bytes.length = 32 then bytes.map (BitVec.ofNat 8) else []

namespace QString

/-- Where a character is in the letters and the zero that ends them. -/
def strchr (c : U8) : Option ℕ :=
  (kAlphabet.map (fun ch : Char => BitVec.ofNat 8 ch.toNat) ++ [0]).idxOf? c

/-- The value of a unit, if it is a letter. -/
def base58Unit (ch : U16) : Option ℕ :=
  match strchr (charLatin1 ch) with
  | none => none
  | some p => if 127 < ch.toNat ∨ charLatin1 ch = 0 then none else some p

def unbase58Step (bytes : List ℕ) (ch : U16) : Option (List ℕ) :=
  (base58Unit ch).map (Radix.push 256 58 bytes)

/-- The 32 bytes a string of the view names, or none. -/
def unbase58 (s : QString) : List U8 :=
  if s = [] ∨ 44 < s.length then
    []
  else
    match s.foldlM unbase58Step [] with
    | none => []
    | some bytes =>
      let leading := s.takeWhile (· = 0x31)
      let bytes := (bytes ++ List.replicate leading.length 0).reverse
      if bytes.length = 32 then bytes.map (BitVec.ofNat 8) else []

end QString

/-! ### The letters -/

/-- The letters are in order, so none comes twice. -/
theorem nodup_kAlphabet : kAlphabet.Nodup := by
  have ordered : kAlphabet.IsChain (· < ·) := by decide
  exact (List.isChain_iff_pairwise.mp ordered).imp Char.ne_of_lt

theorem length_kAlphabet : kAlphabet.length = 58 := by decide

theorem ascii_kAlphabet : ∀ ch ∈ kAlphabet, 0 < ch.toNat ∧ ch.toNat < 128 := by
  have all : kAlphabet.all (fun ch => decide (0 < ch.toNat ∧ ch.toNat < 128)) = true := by decide
  exact fun ch mem => of_decide_eq_true (List.all_eq_true.mp all ch mem)

theorem base58Digit_kAlphabet {d : ℕ} (digit : d < 58) :
    base58Digit (kAlphabet.getD d '1') = some d := by
  rw [← length_kAlphabet] at digit
  rw [List.getD_eq_getElem _ _ digit, base58Digit, if_pos (List.getElem_mem digit),
    nodup_kAlphabet.idxOf_getElem]

theorem getD_kAlphabet_eq_one_iff {d : ℕ} (digit : d < 58) :
    kAlphabet.getD d '1' = '1' ↔ d = 0 := by
  have first : kAlphabet.getD 0 '1' = '1' := rfl
  refine ⟨fun one => ?_, fun zero => zero ▸ first⟩
  have read := base58Digit_kAlphabet digit
  rw [one, ← first, base58Digit_kAlphabet (by decide)] at read
  exact (Option.some.inj read).symm

/-! ### The digits -/

variable {bytes : List U8}

theorem base58Carry_eq (c : ℕ) (ds : List ℕ) : base58Carry c ds = Radix.carry 58 256 c ds := by
  induction ds generalizing c with
  | nil => rfl
  | cons d ds ih => rw [base58Carry, Radix.carry, ih]

/-- The number a string of bytes writes, high end first. -/
def number (bytes : List U8) : ℕ := Radix.value 256 (bytes.map BitVec.toNat)

theorem base58Digits_eq (bytes : List U8) : base58Digits bytes = Nat.digits 58 (number bytes) := by
  rw [number, ← Radix.foldl_push (by decide) (by decide), List.foldl_map]
  unfold base58Digits
  refine List.foldl_ext _ _ _ fun ds c _ => ?_
  rw [base58Carry_eq]
  rfl

/-- How many zero bytes come first. -/
def leadingZeros (bytes : List U8) : ℕ := (bytes.takeWhile (· = 0)).length

/-- The digits of the text, with those of its leading ones. -/
def textDigits (bytes : List U8) : List ℕ :=
  List.replicate (leadingZeros bytes) 0 ++ (Nat.digits 58 (number bytes)).reverse

theorem toList_base58 (bytes : List U8) :
    (base58 bytes).toList = (textDigits bytes).map fun d => kAlphabet.getD d '1' := by
  rw [base58, String.toList_ofList, base58Digits_eq, textDigits, List.map_append,
    List.map_replicate]
  rfl

theorem textDigits_lt (bytes : List U8) : ∀ d ∈ textDigits bytes, d < 58 := by
  intro d mem
  rcases List.mem_append.mp mem with zero | digit
  · rw [List.eq_of_mem_replicate zero]
    decide
  · exact Nat.digits_lt_base (by decide) (List.mem_reverse.mp digit)

theorem mem_kAlphabet_of_mem_base58 {ch : Char} (mem : ch ∈ (base58 bytes).toList) :
    ch ∈ kAlphabet := by
  rw [toList_base58] at mem
  obtain ⟨d, digit, rfl⟩ := List.mem_map.mp mem
  have below := length_kAlphabet ▸ textDigits_lt bytes d digit
  rw [List.getD_eq_getElem _ _ below]
  exact List.getElem_mem below

/-- Letters are read as the digits they stand for. -/
theorem foldlM_unbase58Step {ds : List ℕ} (digits : ∀ d ∈ ds, d < 58) (acc : List ℕ) :
    (ds.map fun d => kAlphabet.getD d '1').foldlM unbase58Step acc =
      some (ds.foldl (Radix.push 256 58) acc) := by
  induction ds generalizing acc with
  | nil => rfl
  | cons d ds ih =>
    have step : unbase58Step acc (kAlphabet.getD d '1') = some (Radix.push 256 58 acc d) := by
      rw [unbase58Step, base58Digit_kAlphabet (digits d List.mem_cons_self), Option.map_some]
    rw [List.map_cons, List.foldlM_cons, step, Option.bind_eq_bind, Option.bind_some,
      ih fun d' mem => digits d' (List.mem_cons_of_mem d mem), List.foldl_cons]

/-- The text starts with as many ones as the bytes with zeros. -/
theorem leading_ones (bytes : List U8) :
    ((base58 bytes).toList.takeWhile (· = '1')).length = leadingZeros bytes := by
  -- the high digit of a number is not zero, so its letter is not a one
  have rest : ((Nat.digits 58 (number bytes)).reverse.map fun d => kAlphabet.getD d '1').takeWhile
      (· = '1') = [] := by
    rw [List.takeWhile_eq_nil_iff]
    intro some one
    rw [List.length_map, List.length_reverse, List.length_pos_iff] at some
    have high := Nat.getLast_digit_ne_zero 58 (m := number bytes) fun none =>
      some (by rw [none, Nat.digits_zero])
    have digit := Nat.digits_lt_base (b := 58) (by decide) (List.getLast_mem some)
    rw [List.get_eq_getElem, List.getElem_map, List.getElem_zero, List.head_reverse,
      decide_eq_true_eq, getD_kAlphabet_eq_one_iff digit] at one
    exact high one
  rw [toList_base58, textDigits, List.map_append, List.map_replicate,
    List.takeWhile_append_of_pos fun ch mem => ?_, rest, List.append_nil, List.length_replicate]
  rw [List.eq_of_mem_replicate mem]
  decide

theorem leadingZeros_le (bytes : List U8) : leadingZeros bytes ≤ bytes.length :=
  (List.takeWhile_sublist _).length_le

/-- Bytes are leading zeros and the digits of their number. -/
theorem map_toNat_eq (bytes : List U8) :
    bytes.map BitVec.toNat =
      List.replicate (leadingZeros bytes) 0 ++ (Nat.digits 256 (number bytes)).reverse := by
  have zeros : (bytes.map BitVec.toNat).takeWhile (· = 0) =
      (bytes.takeWhile (· = 0)).map BitVec.toNat := by
    rw [List.takeWhile_map]
    refine congrArg (fun p => (bytes.takeWhile p).map BitVec.toNat) (funext fun c => ?_)
    exact decide_eq_decide.mpr ⟨fun none => word_ext none, fun none => congrArg BitVec.toNat none⟩
  have digits : ∀ d ∈ bytes.map BitVec.toNat, d < 256 := by
    intro d mem
    obtain ⟨c, -, rfl⟩ := List.mem_map.mp mem
    exact c.isLt
  have split := Radix.eq_replicate_append (by decide) digits
  rwa [zeros, List.length_map] at split

/-- An id's text has between one and 44 letters. -/
theorem length_base58 (length : bytes.length = 32) :
    (base58 bytes).toList ≠ [] ∧ (base58 bytes).toList.length ≤ 44 := by
  have count := congrArg List.length (map_toNat_eq bytes)
  have zeros := leadingZeros_le bytes
  rw [List.length_map, List.length_append, List.length_replicate, List.length_reverse, length]
    at count
  have text : (base58 bytes).toList.length =
      leadingZeros bytes + (Nat.digits 58 (number bytes)).length := by
    rw [toList_base58, List.length_map, textDigits, List.length_append, List.length_replicate,
      List.length_reverse]
  refine ⟨fun empty => ?_, ?_⟩
  · -- without letters there are no zeros and no number, so no bytes
    rw [empty, List.length_nil] at text
    have none : number bytes = 0 :=
      Nat.digits_eq_nil_iff_eq_zero.mp (List.eq_nil_of_length_eq_zero
        (show (Nat.digits 58 (number bytes)).length = 0 by omega))
    rw [none, Nat.digits_zero, List.length_nil] at count
    omega
  · have room : ∀ z ≤ 32, 256 ^ (32 - z) ≤ 58 ^ (44 - z) := by decide
    have small : number bytes < 58 ^ (44 - leadingZeros bytes) := by
      have below := Nat.lt_base_pow_length_digits (b := 256) (m := number bytes) (by decide)
      rw [show (Nat.digits 256 (number bytes)).length = 32 - leadingZeros bytes by omega] at below
      exact Nat.lt_of_lt_of_le below (room _ (length ▸ zeros))
    have digits := (Nat.digits_length_le_iff (by decide) _).mpr small
    omega

/-- An id reads back from its text. -/
theorem unbase58_base58 (length : bytes.length = 32) : unbase58 (base58 bytes) = bytes := by
  obtain ⟨some, short⟩ := length_base58 length
  have read : (base58 bytes).toList.foldlM unbase58Step [] =
      Option.some (Nat.digits 256 (number bytes)) := by
    rw [toList_base58, foldlM_unbase58Step (textDigits_lt bytes),
      Radix.foldl_push (by decide) (by decide), textDigits, Radix.value_replicate_zero,
      Radix.value_eq_ofDigits, List.reverse_reverse, Nat.ofDigits_digits]
  have back : (Nat.digits 256 (number bytes) ++
      List.replicate (leadingZeros bytes) 0).reverse = bytes.map BitVec.toNat := by
    rw [List.reverse_append, List.reverse_replicate, map_toNat_eq]
  have same : (bytes.map BitVec.toNat).map (BitVec.ofNat 8) = bytes := by
    rw [List.map_map]
    exact List.map_id'' (fun c => by simp) bytes
  have fits : ¬ (base58 bytes = "" ∨ 44 < (base58 bytes).length) := by
    rintro (empty | long)
    · exact some (by rw [empty]; rfl)
    · rw [← String.length_toList] at long
      omega
  rw [unbase58, if_neg fits, read]
  dsimp only
  rw [leading_ones, back, List.length_map, if_pos length, same]

/-- Accounts with the same text are the same. -/
theorem base58_inj (a b : AccountId) :
    base58 a.value.toList = base58 b.value.toList ↔ a = b := by
  refine ⟨fun same => ?_, fun same => same ▸ rfl⟩
  have bytes := congrArg unbase58 same
  rw [unbase58_base58 a.value.toList_length, unbase58_base58 b.value.toList_length] at bytes
  exact AccountId.ext (List.Vector.toList_injective bytes)

/-! ### Every accepted text -/

/-- What a fold reads, it reads character by character. -/
theorem isSome_of_foldlM {α β γ : Type} {f : α → Option β} {g : γ → β → γ} {l : List α}
    {acc out : γ} (read : l.foldlM (fun acc a => (f a).map (g acc)) acc = some out) :
    ∀ a ∈ l, (f a).isSome = true := by
  induction l generalizing acc with
  | nil => exact fun a mem => absurd mem List.not_mem_nil
  | cons a l ih =>
    rw [List.foldlM_cons, Option.bind_eq_bind, Option.bind_eq_some_iff] at read
    obtain ⟨acc', step, rest⟩ := read
    obtain ⟨b, value, -⟩ := Option.map_eq_some_iff.mp step
    rw [List.forall_mem_cons]
    exact ⟨Option.isSome_iff_exists.mpr ⟨b, value⟩, ih rest⟩

theorem mem_of_base58Digit {ch : Char} (letter : (base58Digit ch).isSome = true) :
    ch ∈ kAlphabet := by
  unfold base58Digit at letter
  split at letter
  · assumption
  · simp at letter

/-- A letter is the letter of its value. -/
theorem exists_digit {ch : Char} (letter : ch ∈ kAlphabet) :
    ∃ d < 58, kAlphabet.getD d '1' = ch := by
  have below := List.idxOf_lt_length_of_mem letter
  refine ⟨kAlphabet.idxOf ch, length_kAlphabet ▸ below, ?_⟩
  rw [List.getD_eq_getElem _ _ below, List.getElem_idxOf]

theorem exists_digits {cs : List Char} (letters : ∀ ch ∈ cs, (base58Digit ch).isSome = true) :
    ∃ ds : List ℕ, (∀ d ∈ ds, d < 58) ∧ cs = ds.map fun d => kAlphabet.getD d '1' := by
  induction cs with
  | nil => exact ⟨[], by simp, rfl⟩
  | cons ch cs ih =>
    rw [List.forall_mem_cons] at letters
    obtain ⟨d, digit, first⟩ := exists_digit (mem_of_base58Digit letters.1)
    obtain ⟨ds, digits, others⟩ := ih letters.2
    exact ⟨d :: ds, List.forall_mem_cons.mpr ⟨digit, digits⟩, by rw [List.map_cons, first, others]⟩

/-- Ones are the letters of zeros. -/
theorem takeWhile_ones {ds : List ℕ} (digits : ∀ d ∈ ds, d < 58) :
    ((ds.map fun d => kAlphabet.getD d '1').takeWhile (· = '1')).length =
      (ds.takeWhile (· = 0)).length := by
  induction ds with
  | nil => rfl
  | cons d ds ih =>
    rw [List.forall_mem_cons] at digits
    have same := getD_kAlphabet_eq_one_iff digits.1
    simp only [List.map_cons, List.takeWhile_cons, decide_eq_true_eq, same]
    split
    · rw [List.length_cons, List.length_cons, ih digits.2]
    · rfl

/-- Digits of 32 bytes are the digits of the bytes' text. -/
theorem textDigits_of_digits {ds : List ℕ} (digits : ∀ d ∈ ds, d < 58)
    (read : bytes.map BitVec.toNat = List.replicate (ds.takeWhile (· = 0)).length 0 ++
      (Nat.digits 256 (Radix.value 58 ds)).reverse) : textDigits bytes = ds := by
  have same : number bytes = Radix.value 58 ds := by
    rw [number, read, Radix.value_replicate_zero, Radix.value_eq_ofDigits, List.reverse_reverse,
      Nat.ofDigits_digits]
  have zeros : leadingZeros bytes = (ds.takeWhile (· = 0)).length := by
    have count := congrArg List.length ((map_toNat_eq bytes).symm.trans read)
    rw [same, List.length_append, List.length_append, List.length_replicate, List.length_replicate]
      at count
    omega
  rw [textDigits, same, zeros, ← Radix.eq_replicate_append (by decide) digits]

/-- An accepted text was read to its end, and what was read is 32 bytes. -/
theorem unbase58_accepted {s : String} (accepted : unbase58 s ≠ []) :
    ∃ out ns, s.toList.foldlM unbase58Step [] = some out ∧
      (out ++ List.replicate (s.toList.takeWhile (· = '1')).length 0).reverse = ns ∧
        ns.length = 32 ∧ unbase58 s = ns.map (BitVec.ofNat 8) := by
  generalize result : unbase58 s = bytes at accepted ⊢
  unfold unbase58 at result
  split at result
  · exact absurd result.symm accepted
  split at result
  · exact absurd result.symm accepted
  · next out read =>
    dsimp only at result
    split at result
    · next whole => exact ⟨out, _, read, rfl, whole, result.symm⟩
    · exact absurd result.symm accepted

/-- An accepted text names 32 bytes, and it is their text. -/
theorem base58_of_unbase58 {s : String} (accepted : unbase58 s ≠ []) :
    (unbase58 s).length = 32 ∧ base58 (unbase58 s) = s := by
  obtain ⟨out, ns, read, whole, length, result⟩ := unbase58_accepted accepted
  obtain ⟨ds, digits, text⟩ := exists_digits (isSome_of_foldlM read)
  rw [text, foldlM_unbase58Step digits, Radix.foldl_push (by decide) (by decide),
    Option.some_inj] at read
  rw [← read, text, takeWhile_ones digits, List.reverse_append, List.reverse_replicate] at whole
  have small : ∀ n ∈ ns, n < 256 := by
    rw [← whole]
    intro n mem
    rcases List.mem_append.mp mem with zero | digit
    · rw [List.eq_of_mem_replicate zero]
      decide
    · exact Nat.digits_lt_base (by decide) (List.mem_reverse.mp digit)
  have back : (unbase58 s).map BitVec.toNat = ns := by
    rw [result, List.map_map]
    refine (List.map_congr_left fun n mem => ?_).trans (List.map_id ns)
    exact (BitVec.toNat_ofNat n 8).trans (Nat.mod_eq_of_lt (small n mem))
  refine ⟨by rw [result, List.length_map, length], ?_⟩
  rw [← String.toList_inj, toList_base58, textDigits_of_digits digits (back.trans whole.symm),
    ← text]

/-! ### Strings of the view -/

namespace QString

/-- ASCII characters are told apart by their bytes. -/
theorem ofNat_inj {a b : Char} (a_ascii : a.toNat < 128) (b_ascii : b.toNat < 128) :
    BitVec.ofNat 8 a.toNat = BitVec.ofNat 8 b.toNat ↔ a = b := by
  refine ⟨fun same => Char.toNat_inj.mp ?_, fun same => by rw [same]⟩
  have value := congrArg BitVec.toNat same
  rwa [BitVec.toNat_ofNat, BitVec.toNat_ofNat, Nat.mod_eq_of_lt (by omega),
    Nat.mod_eq_of_lt (by omega)] at value

/-- A letter is found in the bytes where it is found in the text. -/
theorem idxOf_bytes {l : List Char} {ch : Char} (letters : ∀ a ∈ l, a.toNat < 128)
    (ascii : ch.toNat < 128) :
    (l.map fun a => BitVec.ofNat 8 a.toNat).idxOf (BitVec.ofNat 8 ch.toNat) = l.idxOf ch := by
  induction l with
  | nil => rfl
  | cons a l ih =>
    rw [List.forall_mem_cons] at letters
    by_cases here : a = ch
    · rw [here, List.map_cons, List.idxOf_cons_self, List.idxOf_cons_self]
    · have bytes : BitVec.ofNat 8 a.toNat ≠ BitVec.ofNat 8 ch.toNat :=
        fun same => here ((ofNat_inj letters.1 ascii).mp same)
      rw [List.map_cons, List.idxOf_cons_ne _ bytes, ih letters.2, List.idxOf_cons_ne _ here]

/-- A byte of a letter is found at the letter. -/
theorem strchr_of_mem {ch : Char} (mem : ch ∈ kAlphabet) (ascii : ch.toNat < 128) :
    strchr (BitVec.ofNat 8 ch.toNat) = some (kAlphabet.idxOf ch) := by
  have byte := List.mem_map_of_mem (f := fun a : Char => BitVec.ofNat 8 a.toNat) mem
  obtain ⟨p, found⟩ :=
    Option.isSome_iff_exists.mp (List.isSome_idxOf?.mpr (List.mem_append_left [0] byte))
  have place := List.idxOf_eq_getD_idxOf? (BitVec.ofNat 8 ch.toNat)
    (kAlphabet.map (fun a => BitVec.ofNat 8 a.toNat) ++ [0])
  rw [found, Option.getD_some, List.idxOf_append_of_mem byte,
    idxOf_bytes (fun a mem => (ascii_kAlphabet a mem).2) ascii] at place
  rw [strchr, found, place]

/-- What is found is a letter or the zero that ends them. -/
theorem mem_of_strchr {c : U8} {p : ℕ} (found : strchr c = some p) :
    c = 0 ∨ ∃ a ∈ kAlphabet, BitVec.ofNat 8 a.toNat = c := by
  have there := List.isSome_idxOf?.mp (Option.isSome_of_eq_some found)
  rcases List.mem_append.mp there with byte | last
  · exact .inr (List.mem_map.mp byte)
  · exact .inl (List.mem_singleton.mp last)

theorem charLatin1_ascii {ch : Char} (ascii : ch.toNat < 128) :
    charLatin1 (BitVec.ofNat 16 ch.toNat) = BitVec.ofNat 8 ch.toNat := by
  have value : (BitVec.ofNat 16 ch.toNat).toNat = ch.toNat := by
    rw [BitVec.toNat_ofNat, Nat.mod_eq_of_lt (by omega)]
  rw [charLatin1, if_pos (by omega)]
  apply word_ext
  rw [BitVec.toNat_setWidth, value, BitVec.toNat_ofNat]

/-- On ASCII a unit is the letter of its character. -/
theorem base58Unit_ascii {ch : Char} (ascii : ch.toNat < 128) :
    base58Unit (BitVec.ofNat 16 ch.toNat) = base58Digit ch := by
  have letters : ∀ a ∈ kAlphabet, a.toNat < 128 := fun a mem => (ascii_kAlphabet a mem).2
  have unit : (BitVec.ofNat 16 ch.toNat).toNat = ch.toNat := by
    rw [BitVec.toNat_ofNat, Nat.mod_eq_of_lt (by omega)]
  have zero : BitVec.ofNat 8 ch.toNat = 0 ↔ ch.toNat = 0 := by
    rw [← BitVec.toNat_inj, BitVec.toNat_ofNat, Nat.mod_eq_of_lt (by omega), toNat_zero]
  unfold base58Unit base58Digit
  rw [charLatin1_ascii ascii, unit]
  by_cases mem : ch ∈ kAlphabet
  · have positive := (ascii_kAlphabet ch mem).1
    rw [strchr_of_mem mem ascii, if_pos mem]
    dsimp only
    rw [if_neg (by rw [zero]; omega)]
  · rw [if_neg mem]
    split
    · rfl
    · next p found =>
      -- only the zero at the end is found that is no letter
      refine if_pos (.inr ?_)
      obtain last | ⟨a, there, same⟩ := mem_of_strchr found
      · exact last
      · exact absurd ((ofNat_inj (letters a there) ascii).mp same ▸ there) mem

/-- Only ASCII letters are letters. -/
theorem lt_of_base58Unit {c : U16} (letter : (base58Unit c).isSome = true) : c.toNat < 128 := by
  by_contra wide
  unfold base58Unit at letter
  split at letter
  · simp at letter
  · rw [if_pos (.inl (by omega))] at letter
    simp at letter

theorem exists_letter {c : U16} (letter : (base58Unit c).isSome = true) :
    ∃ ch ∈ kAlphabet, c.toNat = ch.toNat := by
  have ascii := lt_of_base58Unit letter
  have value := Unicode.toNat_ofNat ascii
  have digit := base58Unit_ascii (value ▸ ascii)
  rw [value, BitVec.ofNat_toNat, BitVec.setWidth_eq] at digit
  rw [digit] at letter
  exact ⟨_, mem_of_base58Digit letter, value.symm⟩

/-- Reading units is reading the characters they write. -/
theorem foldlM_ascii {cs : List Char} (ascii : ∀ ch ∈ cs, ch.toNat < 128) (acc : List ℕ) :
    (cs.map fun ch => BitVec.ofNat 16 ch.toNat).foldlM unbase58Step acc =
      cs.foldlM App.unbase58Step acc := by
  induction cs generalizing acc with
  | nil => rfl
  | cons ch cs ih =>
    rw [List.forall_mem_cons] at ascii
    rw [List.map_cons, List.foldlM_cons, List.foldlM_cons, unbase58Step, App.unbase58Step,
      base58Unit_ascii ascii.1]
    exact congrArg _ (funext fun acc' => ih ascii.2 acc')

theorem takeWhile_ascii {cs : List Char} (ascii : ∀ ch ∈ cs, ch.toNat < 128) :
    ((cs.map fun ch => BitVec.ofNat 16 ch.toNat).takeWhile (· = 0x31)).length =
      (cs.takeWhile (· = '1')).length := by
  induction cs with
  | nil => rfl
  | cons ch cs ih =>
    rw [List.forall_mem_cons] at ascii
    have same : BitVec.ofNat 16 ch.toNat = 0x31 ↔ ch = '1' := by
      refine ⟨fun one => Char.toNat_inj.mp ?_, fun one => by rw [one]; rfl⟩
      have value := congrArg BitVec.toNat one
      rwa [BitVec.toNat_ofNat, Nat.mod_eq_of_lt (by omega)] at value
    simp only [List.map_cons, List.takeWhile_cons, decide_eq_true_eq, same]
    split
    · rw [List.length_cons, List.length_cons, ih ascii.2]
    · rfl

/-- A string that names something is letters throughout. -/
theorem letters_of_unbase58 {s : QString} (accepted : unbase58 s ≠ []) :
    ∀ c ∈ s, (base58Unit c).isSome = true := by
  unfold unbase58 at accepted
  split at accepted
  · exact absurd rfl accepted
  split at accepted
  · exact absurd rfl accepted
  · next out read => exact isSome_of_foldlM read

/-- Reading the units of a text is reading the text. -/
theorem unbase58_ofText (s : String) : unbase58 (ofText s) = App.unbase58 s := by
  by_cases ascii : ∀ ch ∈ s.toList, ch.toNat < 128
  · have empty : ofText s = [] ↔ s = "" := ofText_injective.eq_iff' rfl
    have length : (ofText s).length = s.length := by
      rw [ofText_ascii ascii, List.length_map, String.length_toList]
    unfold unbase58 App.unbase58
    refine if_congr (or_congr empty (by rw [length])) rfl ?_
    rw [ofText_ascii ascii, foldlM_ascii ascii]
    simp only [takeWhile_ascii ascii]
  · -- a character that is not ASCII is no letter, whichever way it is read
    have units : unbase58 (ofText s) = [] := by
      by_contra accepted
      exact ascii (ascii_ofText_iff.mp fun c mem =>
        lt_of_base58Unit (letters_of_unbase58 accepted c mem))
    have text : App.unbase58 s = [] := by
      by_contra accepted
      obtain ⟨out, -, read, -⟩ := unbase58_accepted accepted
      exact ascii fun ch mem =>
        (ascii_kAlphabet ch (mem_of_base58Digit (isSome_of_foldlM read ch mem))).2
    rw [units, text]

/-- Ids and the strings that name them are in bijection: an id's text is short and names the id,
and a string that names something is the text of 32 bytes, in letters only. -/
theorem base58_bijective (id : Bytes 32) (s : QString) :
    ((ofText (base58 id.toList)).length ≤ 44 ∧
        unbase58 (ofText (base58 id.toList)) = id.toList) ∧
      (unbase58 s ≠ [] →
        (unbase58 s).length = 32 ∧ ofText (base58 (unbase58 s)) = s ∧
          ∀ c ∈ s, c ≠ 0 ∧ c.toNat < 128 ∧ ∃ ch ∈ kAlphabet, c.toNat = ch.toNat) := by
  have ascii : ∀ ch ∈ (base58 id.toList).toList, ch.toNat < 128 :=
    fun ch mem => (ascii_kAlphabet ch (mem_kAlphabet_of_mem_base58 mem)).2
  refine ⟨⟨?_, ?_⟩, fun accepted => ?_⟩
  · rw [ofText_ascii ascii, List.length_map]
    exact (length_base58 id.toList_length).2
  · rw [unbase58_ofText, unbase58_base58 id.toList_length]
  · have letters := letters_of_unbase58 accepted
    obtain ⟨text, rfl⟩ := exists_ofText fun c mem => lt_of_base58Unit (letters c mem)
    rw [unbase58_ofText] at accepted ⊢
    obtain ⟨length, back⟩ := base58_of_unbase58 accepted
    refine ⟨length, by rw [back], fun c mem => ?_⟩
    obtain ⟨ch, letter, value⟩ := exists_letter (letters c mem)
    obtain ⟨positive, small⟩ := ascii_kAlphabet ch letter
    exact ⟨fun zero => by rw [zero, toNat_zero] at value; omega, by omega, ch, letter, value⟩

end QString

end App

end Antumbra
