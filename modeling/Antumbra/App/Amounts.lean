/-
# Amounts in the claim sheet

The view has no integers as wide as an amount, so it keeps amounts as text: it compares them
by length and then as a dictionary does, and subtracts them digit by digit. On strings of
digits of any length this is the arithmetic of the numbers they denote, and what the sheet
accepts is a number from one to what is claimable, written canonically in the command.
-/

import Antumbra.App.Decimal

namespace Antumbra

open Antumbra.Math

namespace App

namespace View

open QString

/-! ### Strings of the view -/

/-- White space and line ends, as the view's language has them. -/
def space (c : U16) : Bool :=
  decide (0x09 ≤ c.toNat ∧ c.toNat ≤ 0x0D) || decide (0x2000 ≤ c.toNat ∧ c.toNat ≤ 0x200A) ||
    decide (c.toNat ∈ [0x20, 0xA0, 0x1680, 0x2028, 0x2029, 0x202F, 0x205F, 0x3000, 0xFEFF])

def trim (s : QString) : QString := (s.rdropWhile space).dropWhile space

/-- `Number` of a single unit; nothing where it is not a number. -/
def number (c : U16) : Option ℤ :=
  if 0x30 ≤ c.toNat ∧ c.toNat ≤ 0x39 then some (c.toNat - 0x30)
  else if space c then some 0
  else none

/-- `/^[0-9]+$/`. -/
def Whole (s : QString) : Prop := s ≠ [] ∧ IsDigits s

instance : DecidablePred Whole := fun s => by
  unfold Whole
  infer_instance

/-! ### Decimal strings -/

/-- Digits grouped in threes from the end; any other text as it is. -/
def fmt (s : QString) : QString :=
  if Whole s then
    s.zipIdx.flatMap fun (c, i) =>
      if i ≠ 0 ∧ (s.length - i) % 3 = 0 then ofText "," ++ [c] else [c]
  else
    s

def isZero (d : QString) : Bool := decide (d = ofText "0" ∨ d = ofText "")

def decTrim (d : QString) : QString :=
  let d := (trim d).dropWhile (· = digitUnit 0)
  if d = [] then ofText "0" else d

/-- Compare two amounts: `-1`, `0` or `1`. -/
def decCmp (a b : QString) : ℤ :=
  let a := decTrim a
  let b := decTrim b
  if a.length ≠ b.length then
    if a.length < b.length then -1 else 1
  else if a < b then -1
  else if b < a then 1
  else 0

/-- The loop of `decSub`, over the digits from the low end. -/
def subLoop (borrow : ℤ) (out : QString) : QString → QString → QString
  | [], _ => out
  | x :: a, b =>
    match number x, b.head?.elim (some 0) number with
    | some x, some y =>
      let d := x - y - borrow
      subLoop (if d < 0 then 1 else 0) (ofText (toString (if d < 0 then d + 10 else d)) ++ out) a
        b.tail
    -- what is not a number is written as such and borrows nothing
    | _, _ => subLoop 0 (ofText "NaN" ++ out) a b.tail

/-- `a - b`, for `b` not above `a`. -/
def decSub (a b : QString) : QString :=
  let a := decTrim a
  let b := decTrim b
  decTrim (subLoop 0 [] a.reverse b.reverse)

/-! ### The sheet -/

/-- The fields of a shown schedule that the sheet reads. -/
structure Shown where
  kind : ℤ
  -- times are doubles, as the rationals they are
  start : ℚ
  cliff : ℚ
  cancelledAt : ℚ
  total : QString
  claimed : QString
  claimable : QString
  unit : QString
  beneficiary : QString

/-- What the sheet reads beside the schedule. -/
structure Sheet where
  programId : QString
  scheduleId : QString
  batchId : QString
  claimAmount : QString
  claimDest : QString
  claimPrivate : Bool
  chainNow : ℚ

def nothingToClaim (view : Sheet) (s : Shown) : QString :=
  if s.claimed = s.total then
    ofText "Everything has been claimed."
  else if 0 < s.cancelledAt then
    ofText "Everything that vested before the cancellation has been claimed."
  else if s.kind = 2 then
    ofText "Nothing to claim until another milestone is signalled."
  else if view.chainNow < s.start ∨ s.kind = 0 ∧ view.chainNow < s.cliff then
    ofText "Nothing has vested yet."
  else
    ofText "Nothing more to claim right now."

/-- Why the amount is not taken; empty when it is, or when no schedule is shown. -/
def amountError (view : Sheet) : Option Shown → QString
  | none => ofText ""
  | some s =>
    let a := trim view.claimAmount
    if isZero s.claimable then
      ofText "Nothing to claim: " ++ nothingToClaim view s
    else if ¬ Whole a then
      ofText "Enter a whole number of " ++ s.unit ++ ofText "."
    else if decCmp a (ofText "0") = 0 then
      ofText "Amount must be more than 0: the program refuses an empty claim (E7003)."
    else if 0 < decCmp a s.claimable then
      ofText "More than is claimable: at most " ++ fmt s.claimable ++ ofText " " ++ s.unit ++
        ofText " now. The program would refuse it (E7003)" ++
        if view.claimPrivate then ofText "."
        else ofText ", and a refused public claim is still charged."
    else
      ofText ""

/-- The first text, or the second where it is empty. -/
def orElse (s t : QString) : QString := if s = [] then t else s

/-- The command that claims a schedule. -/
def claimCommand (view : Sheet) : Option Shown → QString
  | none => ofText ""
  | some s =>
    if view.scheduleId = [] then
      ofText ""
    else
      let dest := trim view.claimDest
      ofText "antumbra-vesting claim \\\n  --program " ++ view.programId ++
        ofText " \\\n  --schedule-id " ++ view.scheduleId ++
        (if view.batchId ≠ [] then ofText " \\\n  --batch-id " ++ view.batchId else []) ++
        ofText " \\\n  --beneficiary " ++ s.beneficiary ++ ofText " \\\n  --to " ++
        (if view.claimPrivate then
          ofText "Private/" ++ orElse dest (ofText "<your shielded account>")
        else
          ofText "Public/" ++ orElse dest s.beneficiary) ++
        if Whole (trim view.claimAmount) then
          ofText " \\\n  --amount " ++ decTrim view.claimAmount
        else
          []

example : decCmp (ofText "0100") (ofText "99") = 1 := by decide +kernel
example : decSub (ofText "1000") (ofText "1") = ofText "999" := by decide +kernel

variable {s a b : QString} {ds es xs ys : List ℕ} {c d : ℕ} {view : Sheet} {shown : Shown}

/-! ### Digits among the units -/

theorem space_of_digit {u : U16} (digit : 0x30 ≤ u.toNat ∧ u.toNat ≤ 0x39) : space u = false := by
  simp only [space, Bool.or_eq_false_iff, decide_eq_false_iff_not, List.mem_cons, List.not_mem_nil,
    or_false]
  omega

theorem trim_digits (h : IsDigits s) : trim s = s :=
  dropEnds_eq fun u mem => space_of_digit (h u mem)

theorem number_digitUnit (digit : d < 10) : number (digitUnit d) = some (d : ℤ) := by
  have value := digitUnit_toNat digit
  rw [number, if_pos (by omega), value]
  push_cast
  ring_nf

theorem toString_digit (digit : d < 10) : ofText (toString (d : ℤ)) = [digitUnit d] := by
  interval_cases d <;> rfl

theorem digitUnit_inj (hd : c < 10) (he : d < 10) : digitUnit c = digitUnit d ↔ c = d := by
  rw [← BitVec.toNat_inj, digitUnit_toNat hd, digitUnit_toNat he]
  omega

theorem dropWhile_zeros (digits : ∀ d ∈ ds, d < 10) :
    (ds.map digitUnit).dropWhile (· = digitUnit 0) = (ds.dropWhile (· = 0)).map digitUnit := by
  induction ds with
  | nil => rfl
  | cons d ds ih =>
    rw [List.forall_mem_cons] at digits
    have zero := digitUnit_inj digits.1 (show 0 < 10 by decide)
    by_cases first : d = 0
    · rw [List.map_cons, List.dropWhile_cons_of_pos (by simpa using zero.mpr first),
        List.dropWhile_cons_of_pos (by simpa using first), ih digits.2]
    · rw [List.map_cons, List.dropWhile_cons_of_neg (by simpa using zero.not.mpr first),
        List.dropWhile_cons_of_neg (by simpa using first), List.map_cons]

/-- Trimmed digits are the canonical text of the number they denote. -/
theorem decTrim_digits (h : IsDigits s) : decTrim s = numeral (amount s) := by
  have written := map_digits h
  have stripped := dropWhile_zeros h.digits_lt
  rw [written] at stripped
  rw [decTrim, trim_digits h, stripped, numeral, amount, ← Radix.strip_eq (by decide) h.digits_lt,
    Radix.strip]
  by_cases none : s.digits.dropWhile (· = 0) = []
  · rw [none, if_pos rfl]
    decide
  · rw [if_neg none]
    exact if_neg fun empty => none (List.map_eq_nil_iff.mp empty)

/-! ### Comparing -/

theorem map_digitUnit_lt (hd : ∀ d ∈ ds, d < 10) (he : ∀ d ∈ es, d < 10) :
    ds.map digitUnit < es.map digitUnit ↔ ds < es := by
  induction ds generalizing es with
  | nil =>
    cases es with
    | nil => exact iff_of_false (List.not_lt_nil _) (List.not_lt_nil _)
    | cons e es => exact iff_of_true (List.nil_lt_cons _ _) (List.nil_lt_cons _ _)
  | cons d ds ih =>
    cases es with
    | nil => exact iff_of_false (List.not_lt_nil _) (List.not_lt_nil _)
    | cons e es =>
      rw [List.forall_mem_cons] at hd he
      rw [List.map_cons, List.map_cons, List.cons_lt_cons_iff, List.cons_lt_cons_iff,
        ih hd.2 he.2, digitUnit_inj hd.1 he.1, BitVec.lt_def, digitUnit_toNat hd.1,
        digitUnit_toNat he.1, Nat.add_lt_add_iff_left]

/-- Comparing strings of digits is comparing numbers. -/
theorem decCmp_digits (ha : IsDigits a) (hb : IsDigits b) :
    decCmp a b = Int.sign ((amount a : ℤ) - amount b) := by
  have units (n k : ℕ) : numeral n < numeral k ↔ Radix.numeral 10 n < Radix.numeral 10 k :=
    map_digitUnit_lt (Radix.numeral_lt (by decide)) (Radix.numeral_lt (by decide))
  have length (n : ℕ) : (numeral n).length = (Radix.numeral 10 n).length := List.length_map _
  have order (n k : ℕ) := Radix.numeral_lt_iff (m := 10) (n := n) (k := k) (by decide)
  simp only [decCmp, decTrim_digits ha, decTrim_digits hb, units, length]
  generalize amount a = n
  generalize amount b = k
  have below (h : n < k) : Int.sign ((n : ℤ) - k) = -1 := Int.sign_eq_neg_one_of_neg (by omega)
  have above (h : k < n) : Int.sign ((n : ℤ) - k) = 1 := Int.sign_eq_one_of_pos (by omega)
  split_ifs with lengths shorter first second
  · exact (below ((order n k).mpr (.inl shorter))).symm
  · exact (above ((order k n).mpr (.inl (by omega)))).symm
  · exact (below ((order n k).mpr (.inr ⟨not_not.mp lengths, first⟩))).symm
  · exact (above ((order k n).mpr (.inr ⟨(not_not.mp lengths).symm, second⟩))).symm
  · -- as long as each other, and neither first in the dictionary
    have same : n = k := by
      rcases lt_trichotomy n k with less | same | more
      · rcases (order n k).mp less with shorter | ⟨-, lex⟩
        · exact absurd shorter (not_not.mp lengths).not_lt
        · exact absurd lex first
      · exact same
      · rcases (order k n).mp more with shorter | ⟨-, lex⟩
        · exact absurd shorter (not_not.mp lengths).symm.not_lt
        · exact absurd lex second
    rw [same, sub_self, Int.sign_zero]

/-! ### Subtracting -/

/-- The loop on digits is subtraction column by column. -/
theorem subLoop_digits (hx : ∀ d ∈ xs, d < 10) (hy : ∀ d ∈ ys, d < 10) (hc : c ≤ 1)
    (out : QString) :
    subLoop c out (xs.map digitUnit) (ys.map digitUnit) =
      (Radix.borrowSub 10 xs ys c).1.reverse.map digitUnit ++ out := by
  induction xs generalizing ys c out with
  | nil => rfl
  | cons x xs ih =>
    rw [List.forall_mem_cons] at hx
    have below := Radix.headD_lt (by decide) hy
    have column : (ys.map digitUnit).head?.elim (some 0) number = some ((ys.headD 0 : ℕ) : ℤ) := by
      cases ys with
      | nil => rfl
      | cons y ys => exact number_digitUnit (hy y List.mem_cons_self)
    rw [List.map_cons]
    simp only [subLoop, column, number_digitUnit hx.1, Radix.borrowSub_cons]
    have tail : ∀ d ∈ ys.tail, d < 10 := fun d mem => hy d (List.mem_of_mem_tail mem)
    generalize ys.headD 0 = y at *
    rw [← List.map_tail, List.reverse_cons, List.map_append, List.append_assoc]
    by_cases borrow : x < y + c
    · have negative : (x : ℤ) - y - c < 0 := by omega
      have digit : (x : ℤ) - y - c + 10 = ((x + 10 - (y + c) : ℕ) : ℤ) := by omega
      rw [if_pos negative, if_pos negative, if_pos borrow, if_pos borrow, digit,
        toString_digit (by omega)]
      exact ih hx.2 tail le_rfl _
    · have nonneg : ¬ (x : ℤ) - y - c < 0 := by omega
      have digit : (x : ℤ) - y - c = ((x - (y + c) : ℕ) : ℤ) := by omega
      rw [if_neg nonneg, if_neg nonneg, if_neg borrow, if_neg borrow, digit,
        toString_digit (by omega)]
      exact ih hx.2 tail zero_le_one _

/-- What the view writes for a difference is the difference. -/
theorem decSub_digits (ha : IsDigits a) (hb : IsDigits b) (le : amount b ≤ amount a) :
    decSub a b = numeral (amount a - amount b) := by
  have digits (n : ℕ) : ∀ d ∈ (Radix.numeral 10 n).reverse, d < 10 :=
    fun d mem => Radix.numeral_lt (by decide) d (List.mem_reverse.mp mem)
  have columns := subLoop_digits (digits (amount a)) (digits (amount b)) zero_le_one []
  obtain ⟨low, -⟩ := Radix.borrowSub_digits (digits (amount a)) (digits (amount b)) zero_le_one
  have low' := fun d mem => low d (List.mem_reverse.mp mem)
  rw [List.append_nil, List.map_reverse, List.map_reverse] at columns
  simp only [decSub, decTrim_digits ha, decTrim_digits hb]
  change decTrim (subLoop ((0 : ℕ) : ℤ) [] (numeral (amount a)).reverse _) = _
  rw [numeral, numeral, columns, decTrim_digits (isDigits_map low'), amount, digits_map low',
    Radix.value_borrowSub (by decide) le]

/-! ### The sheet -/

theorem ofText_ne_nil {text : String} (some : text ≠ "") : ofText text ≠ [] :=
  fun none => some (ofText_injective none)

theorem ofText_append_ne_nil {text : String} (some : text ≠ "") (s : QString) :
    ofText text ++ s ≠ [] :=
  fun none => ofText_ne_nil some (List.append_eq_nil_iff.mp none).1

theorem ofText_zero : ofText "0" = numeral 0 := rfl

theorem amount_of_isZero (zero : isZero s = true) : amount s = 0 := by
  rcases of_decide_eq_true zero with rfl | rfl
  · rw [ofText_zero, amount_numeral]
  · rfl

/-- The sheet takes a whole number from one to what is claimable, and no other amount. -/
theorem amountError_eq_nil_iff (digits : IsDigits shown.claimable) :
    amountError view (some shown) = [] ↔ Whole (trim view.claimAmount) ∧
      1 ≤ amount (trim view.claimAmount) ∧
        amount (trim view.claimAmount) ≤ amount shown.claimable := by
  unfold amountError
  simp only
  generalize trim view.claimAmount = a
  by_cases empty : isZero shown.claimable = true
  · rw [if_pos empty, amount_of_isZero empty]
    exact iff_of_false (ofText_append_ne_nil (by decide) _) (by omega)
  by_cases whole : Whole a
  swap
  · rw [if_neg empty, if_pos whole, List.append_assoc]
    exact iff_of_false (ofText_append_ne_nil (by decide) _) fun taken => whole taken.1
  have zero : decCmp a (ofText "0") = 0 ↔ amount a = 0 := by
    rw [ofText_zero, decCmp_digits whole.2 (isDigits_numeral 0), amount_numeral,
      Int.sign_eq_zero_iff_zero]
    omega
  have more : 0 < decCmp a shown.claimable ↔ amount shown.claimable < amount a := by
    rw [decCmp_digits whole.2 digits, Int.sign_pos_iff]
    omega
  rw [if_neg empty, if_neg (not_not.mpr whole), and_iff_right whole]
  by_cases none : amount a = 0
  · rw [if_pos (zero.mpr none)]
    exact iff_of_false (ofText_ne_nil (by decide)) (by omega)
  rw [if_neg (zero.not.mpr none)]
  by_cases large : amount shown.claimable < amount a
  · rw [if_pos (more.mpr large), List.append_assoc, List.append_assoc, List.append_assoc,
      List.append_assoc]
    exact iff_of_false (ofText_append_ne_nil (by decide) _) (by omega)
  · rw [if_neg (more.not.mpr large)]
    exact iff_of_true rfl (by omega)

/-- An amount typed with white space around it is written in the command without. -/
theorem decTrim_typed (h : IsDigits (trim s)) : decTrim s = numeral (amount (trim s)) := by
  rw [← decTrim_digits h, decTrim, decTrim, trim_digits h]

/-- The command ends with the number, written canonically. -/
theorem exists_claimCommand (whole : Whole (trim view.claimAmount))
    (opened : view.scheduleId ≠ []) : ∃ start, claimCommand view (some shown) =
      start ++ ofText " \\\n  --amount " ++ numeral (amount (trim view.claimAmount)) := by
  rw [claimCommand, if_neg opened, if_pos whole, decTrim_typed whole.2]
  exact ⟨_, (List.append_assoc _ _ _).symm⟩

/-- What has vested and is not claimed. -/
def claimableAt (t : Schedule) (now : U64) : U128 :=
  if t.claimed < vestedAt t now then vestedAt t now - t.claimed else 0

/-- The claimable amount of a schedule's JSON, as the view is given it. -/
theorem claimable_shown {t : Schedule} {now : U64} {text : String}
    (field : (scheduleJson t now).lookup "claimable" = some (.str text)) :
    ofText text = numeral (claimableAt t now).toNat := by
  have written : (scheduleJson t now).lookup "claimable" =
      some (.str (App.dec (claimableAt t now))) := rfl
  rw [written, Option.some.injEq, Json.str.injEq] at field
  rw [← field, ofText_dec, dec_eq]

/-- Decimal text of amounts is exact end to end. -/
theorem decimal_exact (v : U128) (s a b : QString) (view : Sheet) (shown : Shown) :
    QString.parseDec (QString.dec v) = (v, true) ∧
      ((∀ c ∈ s, c.toNat < 128) →
        ((QString.parseDec s).2 = true ↔ s ≠ [] ∧ IsDigits s ∧ amount s < 2 ^ 128) ∧
          ((QString.parseDec s).2 = true → (QString.parseDec s).1.toNat = amount s)) ∧
      (∀ d < 10, (v * 10 + BitVec.ofNat 128 d) / 10 ≠ v ↔ 2 ^ 128 ≤ v.toNat * 10 + d) ∧
      (IsDigits a → IsDigits b →
        decCmp a b = Int.sign ((amount a : ℤ) - amount b) ∧
          (amount b ≤ amount a → decSub a b = numeral (amount a - amount b))) ∧
      (IsDigits shown.claimable →
        (amountError view (some shown) = [] ↔ Whole (trim view.claimAmount) ∧
          1 ≤ amount (trim view.claimAmount) ∧
            amount (trim view.claimAmount) ≤ amount shown.claimable)) ∧
      ∀ (t : Schedule) (now : U64) (text : String),
        (scheduleJson t now).lookup "claimable" = some (.str text) →
        shown.claimable = ofText text → amountError view (some shown) = [] →
        1 ≤ amount (trim view.claimAmount) ∧
          amount (trim view.claimAmount) ≤ (claimableAt t now).toNat ∧
          (view.scheduleId ≠ [] → ∃ start, claimCommand view (some shown) =
            start ++ ofText " \\\n  --amount " ++ numeral (amount (trim view.claimAmount))) := by
  refine ⟨QString.parseDec_dec v, parseDec_ascii, fun d digit => step_wraps_iff v digit,
    fun ha hb => ⟨decCmp_digits ha hb, decSub_digits ha hb⟩, amountError_eq_nil_iff, ?_⟩
  intro t now text field given taken
  have claimable := given.trans (claimable_shown field)
  have digits : IsDigits shown.claimable := claimable ▸ isDigits_numeral _
  obtain ⟨whole, one, most⟩ := (amountError_eq_nil_iff digits).mp taken
  rw [claimable, amount_numeral] at most
  exact ⟨one, most, exists_claimCommand whole⟩

end View

end App

end Antumbra
