/-
# The app's texts

Amounts travel through the app as decimal text, and ids as text where they are text and
as hex where they are not. An amount that is written and read again is the amount.
-/

import Antumbra.App.Schedule
import Antumbra.Math.Word
import Mathlib.Data.Nat.Digits.Lemmas

namespace Antumbra

open Antumbra.Math

namespace App

/-- The fields of a JSON object. -/
abbrev Fields := List (String × Json)

/-- Set a field, whether or not it was there. -/
def Fields.set (o : Fields) (key : String) (value : Json) : Fields :=
  o.filter (fun field => field.1 ≠ key) ++ [(key, value)]

/-- A field's text, empty when there is none. -/
def Fields.str (o : Fields) (key : String) : String :=
  match o.lookup key with
  | some (.str text) => text
  | _ => ""

/-- Read decimal digits on top of a value: nothing when one is no digit or the value leaves
the word. -/
def parseDigits (v : U128) : List Char → Option U128
  | [] => some v
  | c :: cs =>
    if c.isDigit then
      let n := v * 10 + BitVec.ofNat 128 (c.toNat - '0'.toNat)
      if n / 10 = v then parseDigits n cs else none
    else
      none

/-- An amount's decimal text, or 0. -/
def parseDec (s : String) : U128 :=
  if s = "" then 0 else (parseDigits 0 s.toList).getD 0

/-- An amount with a comma before every third digit from the end. -/
def fmt (v : U128) : String :=
  let d := (dec v).toList
  String.ofList (d.zipIdx.flatMap fun (c, i) =>
    if i ≠ 0 ∧ (d.length - i) % 3 = 0 then [',', c] else [c])

/-- Two hex digits for each byte. -/
def toHex (bytes : List U8) : String :=
  let digit (n : ℕ) : Char := Char.ofNat (if n < 10 then '0'.toNat + n else 'a'.toNat + n - 10)
  String.ofList (bytes.flatMap fun c => [digit (c.toNat / 16), digit (c.toNat % 16)])

/-- An id as text if it is printable text padded with zeros, and as hex if not. -/
def idText (id : List U8) : String :=
  let text := (id.reverse.dropWhile (· = 0)).reverse
  let printable := text ≠ [] ∧ (∀ c ∈ text, 0x21 ≤ c ∧ c ≤ 0x7e) ∧ text.length ≠ 64
  if printable then String.ofList (text.map fun c => Char.ofNat c.toNat) else toHex id

/-! ### Fields -/

@[simp] theorem Fields.lookup_set_self (o : Fields) (key : String) (value : Json) :
    (o.set key value).lookup key = some value := by
  induction o with
  | nil => simp [Fields.set]
  | cons field o ih =>
    unfold Fields.set at ih ⊢
    by_cases same : field.1 = key
    · rw [List.filter_cons_of_neg (by simpa using same)]
      exact ih
    · rw [List.filter_cons_of_pos (by simpa using same), List.cons_append, List.lookup_cons,
        beq_false_of_ne (Ne.symm same)]
      exact ih

theorem Fields.lookup_set_of_ne (o : Fields) {key key' : String} (value : Json)
    (other : key' ≠ key) : (o.set key value).lookup key' = o.lookup key' := by
  induction o with
  | nil => simp [Fields.set, List.lookup_cons, beq_false_of_ne other]
  | cons field o ih =>
    unfold Fields.set at ih ⊢
    by_cases same : field.1 = key
    · rw [List.filter_cons_of_neg (by simpa using same), List.lookup_cons,
        beq_false_of_ne (fun h => other (h.trans same))]
      exact ih
    · rw [List.filter_cons_of_pos (by simpa using same), List.cons_append, List.lookup_cons,
        List.lookup_cons, ih]

theorem Fields.set_ne_nil (o : Fields) (key : String) (value : Json) : o.set key value ≠ [] := by
  simp [Fields.set]

/-! ### Amounts -/

theorem parseDigits_append (v : U128) (xs ys : List Char) :
    parseDigits v (xs ++ ys) = (parseDigits v xs).bind (parseDigits · ys) := by
  induction xs generalizing v with
  | nil => rfl
  | cons c xs ih =>
    simp only [List.cons_append, parseDigits]
    split
    · split
      · exact ih _
      · rfl
    · rfl

theorem digitChar {d : ℕ} (digit : d < 10) :
    (Char.ofNat ('0'.toNat + d)).isDigit = true ∧
      (Char.ofNat ('0'.toNat + d)).toNat - '0'.toNat = d := by
  interval_cases d <;> decide

/-- Digits in writing order are read back as their value. -/
theorem parseDigits_digits {ds : List ℕ} (digits : ∀ d ∈ ds, d < 10)
    (fits : Nat.ofDigits 10 ds < 2 ^ 128) :
    parseDigits 0 (ds.reverse.map fun d => Char.ofNat ('0'.toNat + d)) =
      some (BitVec.ofNat 128 (Nat.ofDigits 10 ds)) := by
  induction ds with
  | nil => rfl
  | cons d ds ih =>
    have digit := digits d List.mem_cons_self
    rw [Nat.ofDigits_cons] at fits ⊢
    -- the low digit is read last, on top of the others
    have high := ih (fun d' h => digits d' (List.mem_cons_of_mem d h)) (by omega)
    have ten : (10 : U128).toNat = 10 := rfl
    have next : BitVec.ofNat 128 (Nat.ofDigits 10 ds) * 10 + BitVec.ofNat 128 d =
        BitVec.ofNat 128 (d + 10 * Nat.ofDigits 10 ds) := by
      apply word_ext
      simp only [BitVec.toNat_add, BitVec.toNat_mul, BitVec.toNat_ofNat, ten]
      omega
    have back : BitVec.ofNat 128 (d + 10 * Nat.ofDigits 10 ds) / 10 =
        BitVec.ofNat 128 (Nat.ofDigits 10 ds) := by
      apply word_ext
      rw [BitVec.toNat_udiv, BitVec.toNat_ofNat, BitVec.toNat_ofNat, ten, Nat.mod_eq_of_lt fits,
        Nat.mod_eq_of_lt (by omega)]
      omega
    rw [List.reverse_cons, List.map_append, parseDigits_append, high, Option.bind_some]
    simp only [List.map_cons, List.map_nil, parseDigits]
    rw [if_pos (digitChar digit).1, (digitChar digit).2, next, if_pos back]

/-- An amount's text reads as the amount. -/
theorem parseDec_dec (v : U128) : parseDec (dec v) = v := by
  unfold dec
  split
  · next zero => rw [zero]; rfl
  · next nonzero =>
    have digits : ∀ d ∈ Nat.digits 10 v.toNat, d < 10 :=
      fun d h => Nat.digits_lt_base (by decide) h
    have value := Nat.ofDigits_digits 10 v.toNat
    have read := parseDigits_digits digits (by rw [value]; exact v.isLt)
    rw [value, BitVec.ofNat_toNat, BitVec.setWidth_eq] at read
    have written : Nat.digits 10 v.toNat ≠ [] :=
      Nat.digits_ne_nil_iff_ne_zero.mpr fun h => nonzero (word_ext h)
    rw [parseDec, if_neg, String.toList_ofList, read, Option.getD_some]
    intro empty
    have chars := congrArg String.toList empty
    rw [String.toList_ofList] at chars
    exact written (by simpa using chars)

end App

end Antumbra
