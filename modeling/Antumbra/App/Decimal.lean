/-
# Amounts as decimal text

The app writes an amount digit by digit, the low one first and each in front of the others,
and reads one with the word's own arithmetic, which wraps: a step that wrapped is found out
by dividing it back. On ASCII text this is the arithmetic of numbers, of which the ones that
fit the word are read.
-/

import Antumbra.App.QString
import Antumbra.App.Texts
import Antumbra.Math.Numeral

namespace Antumbra

open Antumbra.Math

namespace App

/-- The value of a decimal digit of any script, and `-1` of anything else. -/
def digitValue (c : U16) : ℤ :=
  match digitRows.find? fun row => decide (row ≤ c.toNat ∧ c.toNat < row + 10) with
  | some row => c.toNat - row
  | none => -1

/-- The unit of a digit. -/
def digitUnit (d : ℕ) : U16 := BitVec.ofNat 16 (0x30 + d)

namespace QString

/-- The loop of `dec`: each digit goes in front of those below it. -/
def decLoop (v : U128) (out : QString) : QString :=
  if 0 < v then decLoop (v / 10) (digitUnit (v % 10).toNat :: out) else out
termination_by v.toNat
decreasing_by
  next positive =>
    rw [BitVec.lt_def] at positive
    rw [BitVec.toNat_udiv]
    exact Nat.div_lt_self positive (by decide)

/-- The decimal text of an amount. -/
def dec (v : U128) : QString := if v = 0 then ofText "0" else decLoop v []

/-- The loop of `parseDec`: the value it got to, and whether it was good to the end. -/
def parseLoop (v : U128) : QString → U128 × Bool
  | [] => (v, true)
  | c :: s =>
    if isDigit c = false then
      (v, false)
    else
      let n := v * 10 + BitVec.ofInt 128 (digitValue c)
      if n / 10 ≠ v then (v, false) else parseLoop n s

/-- An amount from its text, and whether it is one; 0 if it is not. -/
def parseDec (s : QString) : U128 × Bool :=
  let (v, good) := parseLoop 0 s
  let good := !s.isEmpty && good
  (if good then v else 0, good)

/-! ### Digits -/

/-- ASCII digits, and nothing else. -/
def IsDigits (s : QString) : Prop := ∀ c ∈ s, 0x30 ≤ c.toNat ∧ c.toNat ≤ 0x39

instance : DecidablePred IsDigits := fun s => by
  unfold IsDigits
  infer_instance

/-- The digits of a text, as numbers. -/
def digits (s : QString) : List ℕ := s.map fun c => c.toNat - 0x30

/-- The number a string of digits denotes. -/
def amount (s : QString) : ℕ := Radix.value 10 s.digits

/-- The canonical decimal text of a number: no leading zeros, and zero as one digit. -/
def numeral (n : ℕ) : QString := (Radix.numeral 10 n).map digitUnit

variable {s : QString} {c : U16} {v : U128} {d n : ℕ} {ds : List ℕ}

theorem digitUnit_toNat (digit : d < 10) : (digitUnit d).toNat = 0x30 + d := by
  rw [digitUnit, BitVec.toNat_ofNat, Nat.mod_eq_of_lt (by omega)]

theorem IsDigits.digits_lt (h : IsDigits s) : ∀ d ∈ s.digits, d < 10 := by
  intro d mem
  obtain ⟨c, within, rfl⟩ := List.mem_map.mp mem
  have range := h c within
  omega

theorem isDigits_map (h : ∀ d ∈ ds, d < 10) : IsDigits (ds.map digitUnit) := by
  intro c mem
  obtain ⟨d, within, rfl⟩ := List.mem_map.mp mem
  have digit := h d within
  rw [digitUnit_toNat digit]
  omega

theorem digits_map (h : ∀ d ∈ ds, d < 10) : digits (ds.map digitUnit) = ds := by
  unfold digits
  rw [List.map_map]
  conv_rhs => rw [← List.map_id ds]
  refine List.map_congr_left fun d mem => ?_
  rw [Function.comp_apply, digitUnit_toNat (h d mem), Nat.add_sub_cancel_left, id]

theorem map_digits (h : IsDigits s) : s.digits.map digitUnit = s := by
  unfold digits
  rw [List.map_map]
  conv_rhs => rw [← List.map_id s]
  refine List.map_congr_left fun c mem => word_ext ?_
  have range := h c mem
  rw [Function.comp_apply, digitUnit_toNat (by omega), id]
  omega

theorem isDigits_numeral (n : ℕ) : IsDigits (numeral n) :=
  isDigits_map (Radix.numeral_lt (by decide))

theorem digits_numeral (n : ℕ) : digits (numeral n) = Radix.numeral 10 n :=
  digits_map (Radix.numeral_lt (by decide))

@[simp] theorem amount_numeral (n : ℕ) : amount (numeral n) = n := by
  rw [amount, digits_numeral, Radix.value_numeral]

theorem numeral_ne_nil (n : ℕ) : numeral n ≠ [] := by
  intro empty
  have length := congrArg List.length empty
  rw [numeral, List.length_map, Radix.length_numeral, List.length_nil] at length
  omega

/-! ### Writing -/

theorem decLoop_eq (v : U128) (out : QString) :
    decLoop v out = (Nat.digits 10 v.toNat).reverse.map digitUnit ++ out := by
  induction v, out using decLoop.induct with
  | case1 v out positive ih =>
    have some : 0 < v.toNat := BitVec.lt_def.mp positive
    rw [decLoop, if_pos positive, ih, Nat.digits_def' (by decide) some, List.reverse_cons,
      List.map_append, List.append_assoc, BitVec.toNat_udiv, BitVec.toNat_umod]
    rfl
  | case2 v out zero =>
    have none : v.toNat = 0 := Nat.eq_zero_of_not_pos fun some => zero (BitVec.lt_def.mpr some)
    rw [decLoop, if_neg zero, none, Nat.digits_zero]
    rfl

/-- The text of an amount is the canonical one. -/
theorem dec_eq (v : U128) : dec v = numeral v.toNat := by
  unfold dec numeral Radix.numeral
  by_cases zero : v = 0
  · rw [if_pos zero, zero, toNat_zero, if_pos rfl]
    decide
  · have some : ¬ v.toNat = 0 := fun none => zero (word_ext none)
    rw [if_neg zero, decLoop_eq, List.append_nil, if_neg some]

/-- The same text as the schedule's JSON carries. -/
theorem ofText_dec (v : U128) : ofText (App.dec v) = dec v := by
  unfold App.dec
  split
  · next zero =>
    rw [zero]
    rfl
  · next nonzero =>
    have chars : (String.ofList ((Nat.digits 10 v.toNat).reverse.map fun d =>
        Char.ofNat ('0'.toNat + d))).toList =
        (Nat.digits 10 v.toNat).reverse.map fun d => Char.ofNat ('0'.toNat + d) :=
      String.toList_ofList
    have value {d : ℕ} (mem : d ∈ (Nat.digits 10 v.toNat).reverse) :
        (Char.ofNat ('0'.toNat + d)).toNat = 0x30 + d := by
      have digit := Nat.digits_lt_base (by decide) (List.mem_reverse.mp mem)
      interval_cases d <;> rfl
    rw [ofText_ascii, chars, List.map_map, dec, if_neg nonzero, decLoop_eq, List.append_nil]
    · refine List.map_congr_left fun d mem => ?_
      rw [Function.comp_apply, value mem, digitUnit]
    · rw [chars]
      intro c mem
      obtain ⟨d, within, rfl⟩ := List.mem_map.mp mem
      have digit := Nat.digits_lt_base (by decide) (List.mem_reverse.mp within)
      rw [value within]
      omega

/-! ### Reading -/

/-- Below 128 only the first row of digits counts. -/
theorem isDigit_ascii (ascii : c.toNat < 128) :
    isDigit c = true ↔ 0x30 ≤ c.toNat ∧ c.toNat ≤ 0x39 := by
  have high : ∀ row ∈ digitRows.tail, 128 ≤ row := by decide
  rw [isDigit, List.any_eq_true]
  constructor
  · rintro ⟨row, mem, inside⟩
    rw [decide_eq_true_eq] at inside
    rcases List.mem_cons.mp mem with rfl | later
    · omega
    · have := high row later
      omega
  · intro range
    exact ⟨0x30, List.mem_cons_self, decide_eq_true (by omega)⟩

theorem digitValue_ascii (range : 0x30 ≤ c.toNat ∧ c.toNat ≤ 0x39) :
    BitVec.ofInt 128 (digitValue c) = BitVec.ofNat 128 (c.toNat - 0x30) := by
  have first : digitRows.find? (fun row => decide (row ≤ c.toNat ∧ c.toNat < row + 10)) =
      some 0x30 := List.find?_cons_of_pos (decide_eq_true (by omega))
  rw [digitValue, first]
  change BitVec.ofInt 128 ((c.toNat : ℤ) - (0x30 : ℕ)) = _
  rw [← Nat.cast_sub range.1, BitVec.ofInt_natCast]

/-- What a step comes to in the word, and what dividing it back gives. -/
theorem step_toNat (v : U128) (d : ℕ) :
    (v * 10 + BitVec.ofNat 128 d).toNat = (v.toNat * 10 + d) % 2 ^ 128 := by
  rw [BitVec.toNat_add, BitVec.toNat_mul, BitVec.toNat_ofNat, show (10 : U128).toNat = 10 from rfl]
  omega

/-- Dividing a step back tells exactly the ones that left the word. -/
theorem step_wraps_iff (v : U128) {d : ℕ} (digit : d < 10) :
    (v * 10 + BitVec.ofNat 128 d) / 10 ≠ v ↔ 2 ^ 128 ≤ v.toNat * 10 + d := by
  have word := v.isLt
  have divided : ((v * 10 + BitVec.ofNat 128 d) / 10).toNat =
      (v.toNat * 10 + d) % 2 ^ 128 / 10 := by
    rw [BitVec.toNat_udiv, step_toNat, show (10 : U128).toNat = 10 from rfl]
  rw [Ne, ← BitVec.toNat_inj, divided]
  rcases Nat.lt_or_ge (v.toNat * 10 + d) (2 ^ 128) with fits | wraps
  · rw [Nat.mod_eq_of_lt fits]
    omega
  · -- at least the size of the word was lost
    have lost := Nat.mod_add_div (v.toNat * 10 + d) (2 ^ 128)
    have once := Nat.div_pos wraps (by decide)
    omega

theorem amount_cons (c : U16) (s : QString) :
    amount (c :: s) = (c.toNat - 0x30) * 10 ^ s.length + amount s := by
  rw [amount, digits, List.map_cons, Radix.value_cons, List.length_map]
  rfl

/-- The loop reads digits to the end as long as the number they come to fits the word. -/
theorem parseLoop_ascii (ascii : ∀ c ∈ s, c.toNat < 128) (v : U128) :
    ((parseLoop v s).2 = true ↔
        IsDigits s ∧ v.toNat * 10 ^ s.length + amount s < 2 ^ 128) ∧
      ((parseLoop v s).2 = true →
        (parseLoop v s).1.toNat = v.toNat * 10 ^ s.length + amount s) := by
  induction s generalizing v with
  | nil =>
    have none : v.toNat * 10 ^ ([] : QString).length + amount [] = v.toNat := by
      simp [amount, digits, Radix.value]
    rw [none]
    exact ⟨iff_of_true rfl ⟨fun c mem => absurd mem List.not_mem_nil, v.isLt⟩, fun _ => rfl⟩
  | cons c s ih =>
    rw [List.forall_mem_cons] at ascii
    by_cases digit : isDigit c = true
    · have range := (isDigit_ascii ascii.1).mp digit
      have whole : IsDigits (c :: s) ↔ IsDigits s := by
        unfold IsDigits
        rw [List.forall_mem_cons, and_iff_right range]
      have total : v.toNat * 10 ^ (c :: s).length + amount (c :: s) =
          (v.toNat * 10 + (c.toNat - 0x30)) * 10 ^ s.length + amount s := by
        rw [amount_cons, List.length_cons, pow_succ]
        ring
      rw [parseLoop, if_neg (by rw [digit]; decide), digitValue_ascii range, whole, total]
      have test := step_wraps_iff v (show c.toNat - 0x30 < 10 by omega)
      by_cases wraps : 2 ^ 128 ≤ v.toNat * 10 + (c.toNat - 0x30)
      · -- the test stops the loop, and what follows only adds
        simp only [if_pos (test.mpr wraps)]
        refine ⟨iff_of_false Bool.false_ne_true fun fits => ?_, fun good => by cases good⟩
        have grows := Nat.mul_le_mul wraps (Nat.one_le_pow s.length 10 (by decide))
        omega
      · simp only [if_neg (test.not.mpr wraps)]
        have step := step_toNat v (c.toNat - 0x30)
        rw [Nat.mod_eq_of_lt (not_le.mp wraps)] at step
        rw [← step]
        exact ih ascii.2 _
    · rw [parseLoop, if_pos (Bool.eq_false_iff.mpr digit)]
      refine ⟨iff_of_false Bool.false_ne_true fun good => ?_, fun good => by cases good⟩
      exact digit ((isDigit_ascii ascii.1).mpr (good.1 c List.mem_cons_self))

/-- On ASCII text exactly the digits of a number that fits the word are good, and are read as
that number. -/
theorem parseDec_ascii (ascii : ∀ c ∈ s, c.toNat < 128) :
    ((parseDec s).2 = true ↔ s ≠ [] ∧ IsDigits s ∧ amount s < 2 ^ 128) ∧
      ((parseDec s).2 = true → (parseDec s).1.toNat = amount s) := by
  obtain ⟨good, value⟩ := parseLoop_ascii ascii 0
  rw [toNat_zero, Nat.zero_mul, Nat.zero_add] at good value
  have answer : (parseDec s).2 = (!s.isEmpty && (parseLoop 0 s).2) := rfl
  have number : (parseDec s).1 = if (parseDec s).2 then (parseLoop 0 s).1 else 0 := rfl
  constructor
  · rw [answer, Bool.and_eq_true, good, Bool.not_eq_true', List.isEmpty_eq_false_iff]
  · intro ok
    rw [number, if_pos ok]
    rw [answer, Bool.and_eq_true] at ok
    exact value ok.2

theorem IsDigits.ascii (h : IsDigits s) : ∀ c ∈ s, c.toNat < 128 := by
  intro c mem
  have := h c mem
  omega

/-- An amount's text reads as the amount. -/
theorem parseDec_dec (v : U128) : parseDec (dec v) = (v, true) := by
  have written := isDigits_numeral v.toNat
  obtain ⟨good, value⟩ := parseDec_ascii written.ascii
  rw [amount_numeral] at good value
  have ok := good.mpr ⟨numeral_ne_nil _, written, v.isLt⟩
  rw [dec_eq]
  exact Prod.ext (word_ext (value ok)) ok

/-! ### Reading characters -/

/-- The digit of a character is that of its unit. -/
theorem isDigit_unit {char : Char} (ascii : char.toNat < 128) :
    char.isDigit = isDigit (BitVec.ofNat 16 char.toNat) := by
  have unit : (BitVec.ofNat 16 char.toNat).toNat = char.toNat := by
    rw [BitVec.toNat_ofNat, Nat.mod_eq_of_lt (by omega)]
  rw [Bool.eq_iff_iff, isDigit_ascii (by omega), unit, Char.isDigit_iff_toNat]
  rfl

/-- On ASCII characters the loop over units is the one over characters. -/
theorem parseDigits_eq {cs : List Char} (ascii : ∀ c ∈ cs, c.toNat < 128) (v : U128) :
    parseDigits v cs =
      if (parseLoop v (cs.map fun c => BitVec.ofNat 16 c.toNat)).2 then
        some (parseLoop v (cs.map fun c => BitVec.ofNat 16 c.toNat)).1
      else none := by
  induction cs generalizing v with
  | nil => rfl
  | cons char cs ih =>
    rw [List.forall_mem_cons] at ascii
    have digit := isDigit_unit ascii.1
    have unit : (BitVec.ofNat 16 char.toNat).toNat = char.toNat := by
      rw [BitVec.toNat_ofNat, Nat.mod_eq_of_lt (by omega)]
    rw [List.map_cons, parseDigits, parseLoop, digit]
    by_cases good : isDigit (BitVec.ofNat 16 char.toNat) = true
    · have value := digitValue_ascii ((isDigit_ascii (by omega)).mp good)
      rw [unit] at value
      have read : ¬ isDigit (BitVec.ofNat 16 char.toNat) = false := by
        rw [good]
        decide
      simp only [if_pos good, if_neg read, value]
      change (if (v * 10 + BitVec.ofNat 128 (char.toNat - 0x30)) / 10 = v then _ else _) = _
      by_cases back : (v * 10 + BitVec.ofNat 128 (char.toNat - 0x30)) / 10 = v
      · rw [if_pos back, if_neg (not_not.mpr back)]
        exact ih ascii.2 _
      · rw [if_neg back, if_pos back]
        rfl
    · rw [if_neg good, if_pos (Bool.eq_false_iff.mpr good)]
      rfl

/-- Reading an ASCII text is reading its characters. -/
theorem parseDec_ofText {text : String} (ascii : ∀ c ∈ text.toList, c.toNat < 128) :
    (parseDec (ofText text)).1 = App.parseDec text := by
  have units := ofText_ascii ascii
  have loop := parseDigits_eq ascii 0
  rw [← units] at loop
  by_cases empty : text = ""
  · rw [empty]
    rfl
  · have some : ofText text ≠ [] := fun none => empty (ofText_injective none)
    have number : (parseDec (ofText text)).1 =
        if (parseDec (ofText text)).2 then (parseLoop 0 (ofText text)).1 else 0 := rfl
    have answer : (parseDec (ofText text)).2 = (parseLoop 0 (ofText text)).2 := by
      change (!(ofText text).isEmpty && _) = _
      rw [List.isEmpty_eq_false_iff.mpr some, Bool.not_false, Bool.true_and]
    rw [App.parseDec, if_neg empty, loop, number, answer]
    split <;> rfl

end QString

end App

end Antumbra
