/-
# Times on the command line

A time is a number of milliseconds, `now`, or `now` and an offset in seconds, minutes, hours
or days. The reader cuts the offset by byte positions before it looks at it and computes
without checks, so some texts stop it, or make it return a time that the text does not denote.
-/

import Antumbra.Math.Fallible
import Antumbra.Math.Radix
import Antumbra.Math.Word
import Mathlib.Data.List.Basic

namespace Antumbra

open Antumbra.Math

namespace Cli

/-! ### The reader -/

/-- How the reader ends without a time. -/
inductive Stop
  | panicked
  | error (text : String)
  deriving DecidableEq, Repr

/-- One more digit, unless the value leaves the word. -/
def parseDigit (v : U64) (c : Char) : Option U64 :=
  if c.isDigit = true then
    (checkedMul v 10).bind fun v => checkedAdd v (BitVec.ofNat 64 (c.toNat - '0'.toNat))
  else
    none

/-- A decimal number, after a plus sign or without. -/
def parseU64 (cs : List Char) : Option U64 :=
  let digits := match cs with
    | '+' :: d :: ds => d :: ds
    | cs => cs
  if digits = [] then none else digits.foldlM parseDigit 0

def stripPrefix : List Char → List Char → Option (List Char)
  | [], cs => some cs
  | _ :: _, [] => none
  | p :: ps, c :: cs => if p = c then stripPrefix ps cs else none

/-- The length of a text in bytes. -/
def byteLength (cs : List Char) : ℕ := (cs.map Char.utf8Size).sum

/-- Cut a text at a position in bytes; nothing where that is inside a character or beyond the
end. -/
def splitAt : List Char → ℕ → Option (List Char × List Char)
  | cs, 0 => some ([], cs)
  | [], _ + 1 => none
  | c :: cs, n + 1 =>
    if c.utf8Size ≤ n + 1 then
      (splitAt cs (n + 1 - c.utf8Size)).map fun (before, after) => (c :: before, after)
    else
      none

/-- The milliseconds of a unit. -/
def unitMs : List Char → Option U64
  | ['s'] => some 1000
  | ['m'] => some 60000
  | ['h'] => some 3600000
  | ['d'] => some 86400000
  | _ => none

/-- Arithmetic that leaves the word: a panic where the build checks, the wrapped value where it
does not. -/
def unchecked (checks : Bool) (exact : Option U64) (wrapped : U64) : Except Stop U64 :=
  match exact with
  | some v => .ok v
  | none => if checks then .error .panicked else .ok wrapped

/-- `now`, `now+90s`, `now-5m`, or plain milliseconds. -/
def time (checks : Bool) (now : U64) (s : String) : Except Stop U64 :=
  match stripPrefix ['n', 'o', 'w'] s.toList with
  | none => okOr (.error ("not a time: " ++ s)) (parseU64 s.toList)
  | some [] => .ok now
  | some rest => do
    let (sign, num) ← okOr .panicked (splitAt rest 1)
    -- the length of nothing less one is beyond the end of it
    ensure (num ≠ []) .panicked
    let (digits, unit) ← okOr .panicked (splitAt num (byteLength num - 1))
    let n ← okOr (.error ("not a time: " ++ s)) (parseU64 digits)
    let unit ← okOr (.error ("unit is s, m, h or d: " ++ s)) (unitMs unit)
    let ms ← unchecked checks (checkedMul n unit) (n * unit)
    match sign with
    | ['+'] => unchecked checks (checkedAdd now ms) (now + ms)
    | ['-'] => unchecked checks (checkedSub now ms) (now - ms)
    | _ => .error (.error ("not a time: " ++ s))

/-! ### The grammar -/

/-- Digits, and the number they write. -/
def Decimal (cs : List Char) (n : ℕ) : Prop :=
  cs ≠ [] ∧ (∀ c ∈ cs, c.isDigit = true) ∧
    Radix.value 10 (cs.map fun c => c.toNat - '0'.toNat) = n

/-- The time a text denotes. -/
def Denotes (now : U64) (cs : List Char) (z : ℤ) : Prop :=
  (∃ n, Decimal cs n ∧ z = n) ∨ (cs = ['n', 'o', 'w'] ∧ z = now.toNat) ∨
    ∃ sign digits unit n ms, cs = 'n' :: 'o' :: 'w' :: sign :: (digits ++ [unit]) ∧
      Decimal digits n ∧ unitMs [unit] = some ms ∧
        (sign = '+' ∧ z = now.toNat + n * ms.toNat ∨ sign = '-' ∧ z = now.toNat - n * ms.toNat)

/-- An offset the reader does not read as what it denotes. -/
def MisreadOffset (checks : Bool) (now : U64) (sign : Char) (digits : List Char) (unit : Char) :
    Prop :=
  128 ≤ sign.toNat ∨ 128 ≤ unit.toNat ∨
    ∃ n ms, parseU64 digits = some n ∧ unitMs [unit] = some ms ∧
      ((checks = true ∨ sign = '+' ∨ sign = '-') ∧ 2 ^ 64 ≤ n.toNat * ms.toNat ∨
        (sign = '+' ∨ sign = '-') ∧ digits.head? = some '+' ∨
          sign = '+' ∧ 2 ^ 64 ≤ now.toNat + n.toNat * ms.toNat ∨
            sign = '-' ∧ now.toNat < n.toNat * ms.toNat)

/-- A text the reader does not read as what it denotes: a number after a plus sign, `now` and
one character, or such an offset. -/
def Misread (checks : Bool) (now : U64) (cs : List Char) : Prop :=
  match stripPrefix ['n', 'o', 'w'] cs with
  | none => cs.head? = some '+' ∧ (parseU64 cs).isSome = true
  | some [] => False
  | some (sign :: num) =>
    match num.reverse with
    | [] => True
    | unit :: digits => MisreadOffset checks now sign digits.reverse unit

/-- The reader does not panic, and returns a time only if the text denotes it. -/
def ReadsExactly (checks : Bool) (now : U64) (s : String) : Prop :=
  time checks now s ≠ .error .panicked ∧
    ∀ v, time checks now s = .ok v → Denotes now s.toList v.toNat

variable {checks : Bool} {now : U64} {s : String} {cs digits : List Char} {sign unit : Char}

/-! ### Numbers -/

theorem parseDigit_eq_some_iff {v v' : U64} {c : Char} :
    parseDigit v c = some v' ↔
      c.isDigit = true ∧ v.toNat * 10 + (c.toNat - '0'.toNat) = v'.toNat := by
  unfold parseDigit
  split
  · next digit =>
    have small : (BitVec.ofNat 64 (c.toNat - '0'.toNat)).toNat = c.toNat - '0'.toNat := by
      have range : c.toNat ≤ '9'.toNat := by
        simp only [Char.isDigit, Bool.and_eq_true, decide_eq_true_eq] at digit
        exact UInt32.le_iff_toNat_le.mp digit.2
      rw [BitVec.toNat_ofNat, Nat.mod_eq_of_lt]
      have nine : '9'.toNat = 57 := rfl
      omega
    have ten : (10 : U64).toNat = 10 := rfl
    simp only [digit, true_and, Option.bind_eq_some_iff, checkedMul_eq_some_iff,
      checkedAdd_eq_some_iff, small, ten]
    constructor
    · rintro ⟨product, value, sum⟩
      omega
    · intro sum
      have fits := v'.isLt
      refine ⟨BitVec.ofNat 64 (v.toNat * 10), ?_, ?_⟩
      · rw [BitVec.toNat_ofNat, Nat.mod_eq_of_lt (by omega)]
      · rw [BitVec.toNat_ofNat, Nat.mod_eq_of_lt (by omega), sum]
  · next other => simp [other]

theorem le_foldl_digits (v : ℕ) (ds : List ℕ) : v ≤ ds.foldl (fun v d => v * 10 + d) v := by
  rw [Radix.foldl_value]
  exact Nat.le_add_right_of_le (Nat.le_mul_of_pos_right v (Nat.pow_pos (by decide)))

/-- Reading digits on top of a value is the arithmetic it looks like, in the word. -/
theorem foldlM_parseDigit {a v : U64} : cs.foldlM parseDigit a = some v ↔
    (∀ c ∈ cs, c.isDigit = true) ∧
      (cs.map fun c => c.toNat - '0'.toNat).foldl (fun v d => v * 10 + d) a.toNat = v.toNat := by
  induction cs generalizing a with
  | nil => simp [BitVec.toNat_inj]
  | cons c cs ih =>
    simp only [List.foldlM_cons, Option.bind_eq_bind, Option.bind_eq_some_iff,
      parseDigit_eq_some_iff, ih, List.forall_mem_cons, List.map_cons, List.foldl_cons]
    constructor
    · rintro ⟨a', ⟨digit, value⟩, digits, total⟩
      exact ⟨⟨digit, digits⟩, by rw [value, total]⟩
    · rintro ⟨⟨digit, digits⟩, total⟩
      -- what was read so far is no more than what it becomes
      have grows := le_foldl_digits (a.toNat * 10 + (c.toNat - '0'.toNat))
        (cs.map fun c => c.toNat - '0'.toNat)
      have fits := v.isLt
      have value : (BitVec.ofNat 64 (a.toNat * 10 + (c.toNat - '0'.toNat))).toNat =
          a.toNat * 10 + (c.toNat - '0'.toNat) := by
        rw [BitVec.toNat_ofNat, Nat.mod_eq_of_lt (by omega)]
      exact ⟨_, ⟨digit, value.symm⟩, digits, by rw [value, total]⟩

/-- Numbers are digits, or digits after a plus sign, that fit. -/
theorem parseU64_eq_some_iff {v : U64} :
    parseU64 cs = some v ↔ Decimal cs v.toNat ∨ ∃ ds, cs = '+' :: ds ∧ Decimal ds v.toNat := by
  have read (ds : List Char) : (if ds = [] then none else ds.foldlM parseDigit 0) = some v ↔
      Decimal ds v.toNat := by
    split
    · next empty => simp [Decimal, empty]
    · next some =>
      rw [foldlM_parseDigit]
      exact ⟨fun h => ⟨some, h⟩, fun h => h.2⟩
  have plus (ds : List Char) : ¬ Decimal ('+' :: ds) v.toNat := fun decimal =>
    absurd (decimal.2.1 '+' List.mem_cons_self) (by decide)
  unfold parseU64
  dsimp only
  split
  · next d ds =>
    rw [read]
    refine ⟨fun decimal => .inr ⟨_, rfl, decimal⟩, ?_⟩
    rintro (decimal | ⟨_, same, decimal⟩)
    · exact absurd decimal (plus _)
    · obtain rfl := (List.cons.inj same).2
      exact decimal
  · next cs other =>
    rw [read]
    refine ⟨.inl, ?_⟩
    rintro (decimal | ⟨ds, rfl, decimal⟩)
    · exact decimal
    · cases ds with
      | nil => exact absurd rfl decimal.1
      | cons d ds => exact absurd rfl (other d ds)

/-! ### Positions -/

theorem stripPrefix_eq_some_iff {ps rest : List Char} :
    stripPrefix ps cs = some rest ↔ cs = ps ++ rest := by
  induction ps generalizing cs with
  | nil => exact Option.some_inj
  | cons p ps ih =>
    cases cs with
    | nil => simp [stripPrefix]
    | cons c cs =>
      rw [stripPrefix]
      split
      · next same => rw [ih, same, List.cons_append, List.cons.injEq, and_iff_right rfl]
      · next other =>
        rw [List.cons_append, List.cons.injEq]
        exact iff_of_false (by simp) fun h => other h.1.symm

theorem byteLength_append (xs ys : List Char) :
    byteLength (xs ++ ys) = byteLength xs + byteLength ys := by
  rw [byteLength, List.map_append, List.sum_append, byteLength, byteLength]

/-- A whole character is passed, -/
theorem splitAt_cons (c : Char) (cs : List Char) (n : ℕ) :
    splitAt (c :: cs) (c.utf8Size + n) =
      (splitAt cs n).map fun (before, after) => (c :: before, after) := by
  obtain ⟨k, size⟩ := Nat.exists_eq_add_of_lt (Char.utf8Size_pos c)
  rw [show c.utf8Size + n = (k + n) + 1 by omega, splitAt, if_pos (by omega),
    show k + n + 1 - c.utf8Size = n by omega]

/-- and a part of one is refused. -/
theorem splitAt_inside {c : Char} (cs : List Char) {n : ℕ} (some : 0 < n) (part : n < c.utf8Size) :
    splitAt (c :: cs) n = none := by
  obtain ⟨k, rfl⟩ := Nat.exists_eq_add_of_lt some
  rw [show 0 + k + 1 = k + 1 by omega, splitAt, if_neg (by omega)]

theorem splitAt_append (xs ys : List Char) (n : ℕ) :
    splitAt (xs ++ ys) (byteLength xs + n) =
      (splitAt ys n).map fun (before, after) => (xs ++ before, after) := by
  induction xs with
  | nil => simp [byteLength]
  | cons x xs ih =>
    have length : byteLength (x :: xs) + n = x.utf8Size + (byteLength xs + n) := by
      rw [byteLength, List.map_cons, List.sum_cons, Nat.add_assoc, byteLength]
    rw [List.cons_append, length, splitAt_cons, ih, Option.map_map]
    rfl

theorem utf8Size_of_ascii {c : Char} (ascii : c.toNat < 128) : c.utf8Size = 1 :=
  Char.utf8Size_eq_one_iff.mpr (UInt32.le_iff_toNat_le.mpr (Nat.le_of_lt_succ ascii))

theorem one_lt_utf8Size {c : Char} (wide : 128 ≤ c.toNat) : 1 < c.utf8Size := by
  refine Nat.lt_of_le_of_ne (Char.utf8Size_pos c) fun one => ?_
  have ascii := UInt32.le_iff_toNat_le.mp (Char.utf8Size_eq_one_iff.mp one.symm)
  exact absurd wide (not_le.mpr (Nat.lt_succ_of_le ascii))

/-- The first byte is cut off where it is a character. -/
theorem splitAt_one {c : Char} (ascii : c.toNat < 128) (cs : List Char) :
    splitAt (c :: cs) 1 = some ([c], cs) := by
  have cut := splitAt_cons c cs 0
  rw [utf8Size_of_ascii ascii] at cut
  exact cut.trans (by simp [splitAt])

/-- The last byte is cut off where it is a character, -/
theorem splitAt_last {c : Char} (ascii : c.toNat < 128) (cs : List Char) :
    splitAt (cs ++ [c]) (byteLength (cs ++ [c]) - 1) = some (cs, [c]) := by
  have length : byteLength (cs ++ [c]) - 1 = byteLength cs + 0 := by
    rw [byteLength_append, show byteLength [c] = c.utf8Size from Nat.add_zero _,
      utf8Size_of_ascii ascii, Nat.add_sub_cancel, Nat.add_zero]
  rw [length, splitAt_append]
  simp [splitAt]

/-- and nowhere else. -/
theorem splitAt_last_wide {c : Char} (wide : 128 ≤ c.toNat) (cs : List Char) :
    splitAt (cs ++ [c]) (byteLength (cs ++ [c]) - 1) = none := by
  have size := one_lt_utf8Size wide
  have length : byteLength (cs ++ [c]) - 1 = byteLength cs + (c.utf8Size - 1) := by
    rw [byteLength_append, show byteLength [c] = c.utf8Size from Nat.add_zero _]
    omega
  rw [length, splitAt_append, splitAt_inside [] (by omega) (by omega), Option.map_none]

/-! ### The offset -/

/-- The arithmetic of an offset. -/
def shift (checks : Bool) (now : U64) (s : String) (sign : Char) (n unit : U64) :
    Except Stop U64 := do
  let ms ← unchecked checks (checkedMul n unit) (n * unit)
  if sign = '+' then
    unchecked checks (checkedAdd now ms) (now + ms)
  else if sign = '-' then
    unchecked checks (checkedSub now ms) (now - ms)
  else
    .error (.error ("not a time: " ++ s))

/-- What follows once the offset is cut into a sign, digits and a unit. -/
def offset (checks : Bool) (now : U64) (s : String) (sign : Char) (digits : List Char)
    (unit : Char) : Except Stop U64 := do
  let n ← okOr (.error ("not a time: " ++ s)) (parseU64 digits)
  let unit ← okOr (.error ("unit is s, m, h or d: " ++ s)) (unitMs [unit])
  shift checks now s sign n unit

/-- A cut offset. -/
theorem time_eq_offset (shape : s.toList = 'n' :: 'o' :: 'w' :: sign :: (digits ++ [unit]))
    (sign_ascii : sign.toNat < 128) (unit_ascii : unit.toNat < 128) :
    time checks now s = offset checks now s sign digits unit := by
  have rest : stripPrefix ['n', 'o', 'w'] s.toList = some (sign :: (digits ++ [unit])) :=
    stripPrefix_eq_some_iff.mpr shape
  unfold time
  rw [rest]
  dsimp only
  rw [splitAt_one sign_ascii, okOr, ok_bind]
  dsimp only
  rw [ensure_of (by simp), ok_bind, splitAt_last unit_ascii, okOr, ok_bind]
  dsimp only
  refine bind_congr fun n => bind_congr fun ms => bind_congr fun product => ?_
  by_cases plus : sign = '+'
  · rw [plus]
    rfl
  by_cases minus : sign = '-'
  · rw [minus]
    rfl
  rw [if_neg plus, if_neg minus]
  split
  · next same => exact absurd (List.singleton_inj.mp same) plus
  · next same => exact absurd (List.singleton_inj.mp same) minus
  · rfl

/-- Unless both are characters of one byte the text is cut inside a character. -/
theorem time_panicked (shape : s.toList = 'n' :: 'o' :: 'w' :: sign :: (digits ++ [unit]))
    (wide : 128 ≤ sign.toNat ∨ 128 ≤ unit.toNat) : time checks now s = .error .panicked := by
  have rest : stripPrefix ['n', 'o', 'w'] s.toList = some (sign :: (digits ++ [unit])) :=
    stripPrefix_eq_some_iff.mpr shape
  unfold time
  rw [rest]
  dsimp only
  by_cases sign_wide : 128 ≤ sign.toNat
  · rw [splitAt_inside _ Nat.one_pos (one_lt_utf8Size sign_wide), okOr]
    rfl
  · rw [splitAt_one (not_le.mp sign_wide), okOr, ok_bind]
    dsimp only
    rw [ensure_of (by simp), ok_bind, splitAt_last_wide (wide.resolve_left sign_wide), okOr]
    rfl

/-- A sign alone leaves nothing to cut. -/
theorem time_alone (shape : s.toList = ['n', 'o', 'w', sign]) :
    time checks now s = .error .panicked := by
  have rest : stripPrefix ['n', 'o', 'w'] s.toList = some [sign] :=
    stripPrefix_eq_some_iff.mpr shape
  unfold time
  rw [rest]
  dsimp only
  by_cases wide : 128 ≤ sign.toNat
  · rw [splitAt_inside _ Nat.one_pos (one_lt_utf8Size wide), okOr]
    rfl
  · rw [splitAt_one (not_le.mp wide), okOr, ok_bind]
    dsimp only
    rw [ensure_of_not (by simp)]
    rfl

theorem denotes_offset_iff {z : ℤ} :
    Denotes now ('n' :: 'o' :: 'w' :: sign :: (digits ++ [unit])) z ↔
      ∃ n ms, Decimal digits n ∧ unitMs [unit] = some ms ∧
        (sign = '+' ∧ z = now.toNat + n * ms.toNat ∨
          sign = '-' ∧ z = now.toNat - n * ms.toNat) := by
  constructor
  · rintro (⟨n, decimal, -⟩ | ⟨same, -⟩ | ⟨sign', digits', unit', n, ms, same, rest⟩)
    · exact absurd (decimal.2.1 'n' List.mem_cons_self) (by decide)
    · simp at same
    · simp only [List.cons.injEq, true_and] at same
      obtain ⟨rfl, same⟩ := same
      obtain ⟨rfl, last⟩ := List.append_inj' same rfl
      obtain rfl := List.singleton_inj.mp last
      exact ⟨n, ms, rest⟩
  · rintro ⟨n, ms, rest⟩
    exact .inr (.inr ⟨sign, digits, unit, n, ms, rfl, rest⟩)

/-- With its number and unit read, an offset denotes a time unless a plus sign is left over. -/
theorem denotes_offset_of_parse {n ms : U64} {z : ℤ} (number : parseU64 digits = some n)
    (size : unitMs [unit] = some ms) :
    Denotes now ('n' :: 'o' :: 'w' :: sign :: (digits ++ [unit])) z ↔
      digits.head? ≠ some '+' ∧
        (sign = '+' ∧ z = now.toNat + n.toNat * ms.toNat ∨
          sign = '-' ∧ z = now.toNat - n.toNat * ms.toNat) := by
  rw [denotes_offset_iff]
  constructor
  · rintro ⟨m, ms', decimal, size', rest⟩
    obtain rfl := Option.some.inj (size.symm.trans size')
    refine ⟨fun plus => ?_, ?_⟩
    · have mem : '+' ∈ digits := List.mem_of_mem_head? plus
      exact absurd (decimal.2.1 '+' mem) (by decide)
    · rcases parseU64_eq_some_iff.mp number with same | ⟨ds, rfl, -⟩
      · rwa [← decimal.2.2, same.2.2] at rest
      · exact absurd (decimal.2.1 '+' List.mem_cons_self) (by decide)
  · rintro ⟨plain, rest⟩
    rcases parseU64_eq_some_iff.mp number with decimal | ⟨ds, rfl, -⟩
    · exact ⟨n.toNat, ms, decimal, size, rest⟩
    · exact absurd rfl plain

/-- An operation that may leave the word is exact where it does not. -/
theorem unchecked_exact_iff {o : Option U64} {w : U64} {z : ℤ} {plain : Prop}
    (exact : ∀ v, o = some v ↔ (v.toNat : ℤ) = z) :
    (unchecked checks o w ≠ .error .panicked ∧
      ∀ v, unchecked checks o w = .ok v → plain ∧ (v.toNat : ℤ) = z) ↔
        plain ∧ o.isSome = true := by
  cases o with
  | some v =>
    have value := (exact v).mp rfl
    simp [unchecked, value]
  | none =>
    have never (v : U64) : (v.toNat : ℤ) ≠ z := fun value => by
      have some := (exact v).mpr value
      simp at some
    cases checks with
    | true => simp [unchecked]
    | false => simp [unchecked, never]

theorem unchecked_none {w : U64} :
    unchecked checks none w = if checks then .error .panicked else .ok w := rfl

/-- A build that does not check always returns something. -/
theorem exists_unchecked (o : Option U64) (w : U64) : ∃ v, unchecked false o w = .ok v := by
  cases o with
  | some v => exact ⟨v, rfl⟩
  | none => exact ⟨w, rfl⟩

/-- A product that leaves the word is never made up for. -/
theorem not_shift_exact {n ms : U64} {plain : Prop} (large : 2 ^ 64 ≤ n.toNat * ms.toNat)
    (signed : checks = true ∨ sign = '+' ∨ sign = '-') :
    ¬ (shift checks now s sign n ms ≠ .error .panicked ∧
      ∀ v, shift checks now s sign n ms = .ok v → plain ∧
        (sign = '+' ∧ (v.toNat : ℤ) = now.toNat + n.toNat * ms.toNat ∨
          sign = '-' ∧ (v.toNat : ℤ) = now.toNat - n.toNat * ms.toNat)) := by
  rintro ⟨quiet, exact⟩
  have product : checkedMul n ms = none := if_neg (not_lt.mpr large)
  have now_lt := now.isLt
  -- an unchecked build returns a value, but no word is the time meant
  have some : ∃ v, shift checks now s sign n ms = .ok v := by
    unfold shift at quiet ⊢
    rw [product, unchecked_none] at quiet ⊢
    cases checks with
    | true => exact absurd rfl quiet
    | false =>
      rw [if_neg Bool.false_ne_true, ok_bind]
      split
      · exact exists_unchecked _ _
      · next plus =>
        have minus := (signed.resolve_left Bool.false_ne_true).resolve_left plus
        rw [if_pos minus]
        exact exists_unchecked _ _
  obtain ⟨v, returned⟩ := some
  have fits := v.isLt
  rcases (exact v returned).2 with ⟨-, value⟩ | ⟨-, value⟩
  · omega
  · omega

/-- The arithmetic is exact unless something leaves the word. -/
theorem shift_exact_iff {n ms : U64} {plain : Prop} :
    (shift checks now s sign n ms ≠ .error .panicked ∧
      ∀ v, shift checks now s sign n ms = .ok v → plain ∧
        (sign = '+' ∧ (v.toNat : ℤ) = now.toNat + n.toNat * ms.toNat ∨
          sign = '-' ∧ (v.toNat : ℤ) = now.toNat - n.toNat * ms.toNat)) ↔
      ¬ ((checks = true ∨ sign = '+' ∨ sign = '-') ∧ 2 ^ 64 ≤ n.toNat * ms.toNat ∨
        (sign = '+' ∨ sign = '-') ∧ ¬ plain ∨
          sign = '+' ∧ 2 ^ 64 ≤ now.toNat + n.toNat * ms.toNat ∨
            sign = '-' ∧ now.toNat < n.toNat * ms.toNat) := by
  by_cases large : 2 ^ 64 ≤ n.toNat * ms.toNat
  · by_cases signed : checks = true ∨ sign = '+' ∨ sign = '-'
    · exact iff_of_false (not_shift_exact large signed) fun exact => exact (.inl ⟨signed, large⟩)
    · -- the wrapped product is thrown away with the sign
      obtain ⟨unchecked_build, no_sign⟩ := not_or.mp signed
      obtain ⟨plus, minus⟩ := not_or.mp no_sign
      have product : checkedMul n ms = none := if_neg (not_lt.mpr large)
      rw [shift, product, unchecked_none, if_neg unchecked_build, ok_bind, if_neg plus,
        if_neg minus]
      simp [plus, minus, unchecked_build]
  have product : checkedMul n ms = some (n * ms) := if_pos (not_le.mp large)
  have value : (n * ms).toNat = n.toNat * ms.toNat :=
    (checkedMul_eq_some_iff.mp product).symm
  rw [shift, product, unchecked, ok_bind, ← Nat.cast_mul]
  generalize n.toNat * ms.toNat = ticks at large value ⊢
  by_cases plus : sign = '+'
  · have exact := @unchecked_exact_iff checks (checkedAdd now (n * ms)) (now + n * ms)
      (now.toNat + ticks) plain fun v => by rw [checkedAdd_eq_some_iff, value]; omega
    rw [isSome_checkedAdd_iff, value] at exact
    simp only [plus, if_true, true_and, show ('+' = '-') = False by decide, false_and, or_false,
      or_true, large, and_false, false_or]
    rw [exact, not_or, not_not, not_le]
  by_cases minus : sign = '-'
  · have exact := @unchecked_exact_iff checks (checkedSub now (n * ms)) (now - n * ms)
      (now.toNat - ticks) plain fun v => by rw [checkedSub_eq_some_iff, value]; omega
    rw [isSome_checkedSub_iff, value] at exact
    simp only [minus, show ('-' = '+') = False by decide, if_false, if_true, true_and, false_and,
      or_true, large, and_false, false_or]
    rw [exact, not_or, not_not, not_lt]
  · refine iff_of_true ⟨by simp [plus, minus], by simp [plus, minus]⟩ ?_
    rintro (⟨-, big⟩ | ⟨here, -⟩ | ⟨here, -⟩ | ⟨here, -⟩)
    · exact large big
    · exact here.elim plus minus
    · exact plus here
    · exact minus here

/-- The reader reads a cut offset for what it denotes, unless it misreads it. -/
theorem offset_exact_iff (sign_ascii : sign.toNat < 128) (unit_ascii : unit.toNat < 128) :
    (offset checks now s sign digits unit ≠ .error .panicked ∧
      ∀ v, offset checks now s sign digits unit = .ok v →
        Denotes now ('n' :: 'o' :: 'w' :: sign :: (digits ++ [unit])) v.toNat) ↔
      ¬ MisreadOffset checks now sign digits unit := by
  unfold offset MisreadOffset
  cases number : parseU64 digits with
  | none => simp [okOr, bind, Except.bind, not_le.mpr sign_ascii, not_le.mpr unit_ascii]
  | some n =>
  cases size : unitMs [unit] with
  | none => simp [okOr, bind, Except.bind, not_le.mpr sign_ascii, not_le.mpr unit_ascii]
  | some ms =>
  simp only [denotes_offset_of_parse number size, okOr, ok_bind, not_le.mpr sign_ascii,
    not_le.mpr unit_ascii, false_or, Option.some.injEq]
  have exact := @shift_exact_iff checks now s sign n ms (digits.head? ≠ some '+')
  rw [not_not] at exact
  rw [exact]
  refine not_congr ⟨fun bad => ⟨n, ms, rfl, rfl, bad⟩, ?_⟩
  rintro ⟨_, _, rfl, rfl, bad⟩
  exact bad

/-! ### Every text -/

/-- A plain number is read for what it is, unless a plus sign comes first. -/
theorem plain_exact_iff (plain : stripPrefix ['n', 'o', 'w'] s.toList = none) :
    ReadsExactly checks now s ↔
      ¬ (s.toList.head? = some '+' ∧ (parseU64 s.toList).isSome = true) := by
  have denotes (z : ℤ) : Denotes now s.toList z ↔ ∃ n, Decimal s.toList n ∧ z = n := by
    refine ⟨?_, .inl⟩
    -- the other times begin with `now`
    rintro (decimal | ⟨same, -⟩ | ⟨_, _, _, _, _, same, -⟩)
    · exact decimal
    · rw [same] at plain
      exact absurd plain (by decide)
    · rw [same] at plain
      simp [stripPrefix] at plain
  unfold ReadsExactly time
  rw [plain]
  dsimp only
  cases number : parseU64 s.toList with
  | none => simp [okOr]
  | some n =>
    simp only [okOr, denotes, Option.isSome_some, and_true, ne_eq, reduceCtorEq, not_false_eq_true,
      true_and, Except.ok.injEq, forall_eq', Nat.cast_inj]
    constructor
    · rintro ⟨m, decimal, -⟩ plus
      exact absurd (decimal.2.1 '+' (List.mem_of_mem_head? plus)) (by decide)
    · intro plus
      rcases parseU64_eq_some_iff.mp number with decimal | ⟨ds, same, -⟩
      · exact ⟨_, decimal, rfl⟩
      · exact absurd (by rw [same]; rfl) plus

theorem readsExactly_iff : ReadsExactly checks now s ↔ ¬ Misread checks now s.toList := by
  unfold Misread
  cases cut : stripPrefix ['n', 'o', 'w'] s.toList with
  | none => exact plain_exact_iff cut
  | some rest =>
  have shape := stripPrefix_eq_some_iff.mp cut
  cases rest with
  | nil =>
    have read : time checks now s = .ok now := by
      unfold time
      rw [cut]
    refine iff_of_true ⟨by rw [read]; nofun, fun v returned => ?_⟩ id
    obtain rfl := Except.ok.inj (read.symm.trans returned)
    exact .inr (.inl ⟨shape, rfl⟩)
  | cons sign num =>
    dsimp only
    rcases List.eq_nil_or_concat num with rfl | ⟨digits, unit, rfl⟩
    · exact iff_of_false (fun exact => exact.1 (time_alone shape)) fun quiet => quiet trivial
    · rw [List.concat_eq_append] at shape ⊢
      rw [List.reverse_append, List.reverse_singleton, List.singleton_append]
      dsimp only
      rw [List.reverse_reverse]
      by_cases wide : 128 ≤ sign.toNat ∨ 128 ≤ unit.toNat
      · refine iff_of_false (fun exact => exact.1 (time_panicked shape wide)) fun quiet => quiet ?_
        exact wide.imp_right .inl
      · obtain ⟨sign_ascii, unit_ascii⟩ := not_or.mp wide
        rw [not_le] at sign_ascii unit_ascii
        have offset := @offset_exact_iff checks now s digits sign unit sign_ascii unit_ascii
        rwa [← time_eq_offset shape sign_ascii unit_ascii,
          show 'n' :: 'o' :: 'w' :: sign :: (digits ++ [unit]) = s.toList from shape.symm] at offset

theorem unitMs_spec {ms : U64} (size : unitMs [unit] = some ms) :
    unit.toNat < 128 ∧ 0 < ms.toNat := by
  unfold unitMs at size
  split at size
  · next same => cases List.singleton_inj.mp same; cases size; decide
  · next same => cases List.singleton_inj.mp same; cases size; decide
  · next same => cases List.singleton_inj.mp same; cases size; decide
  · next same => cases List.singleton_inj.mp same; cases size; decide
  · cases size

/-- A time that a text denotes and that is a word is returned. -/
theorem time_of_denotes {v : U64} (denotes : Denotes now s.toList v.toNat) :
    time checks now s = .ok v := by
  rcases denotes with ⟨n, decimal, value⟩ | ⟨shape, value⟩ |
    ⟨sign, digits, unit, n, ms, shape, decimal, size, signed⟩
  · obtain rfl : v.toNat = n := by omega
    have plain : stripPrefix ['n', 'o', 'w'] s.toList = none := by
      refine Option.eq_none_iff_forall_ne_some.mpr fun rest cut => ?_
      have first : 'n' ∈ s.toList := stripPrefix_eq_some_iff.mp cut ▸ List.mem_cons_self
      have digit := decimal.2.1 'n' first
      exact absurd digit (by decide)
    unfold time
    rw [plain, parseU64_eq_some_iff.mpr (.inl decimal)]
    rfl
  · obtain rfl : v = now := word_ext (by omega)
    unfold time
    rw [shape]
    rfl
  · obtain ⟨unit_ascii, positive⟩ := unitMs_spec size
    have v_lt := v.isLt
    have now_lt := now.isLt
    have product : n * ms.toNat < 2 ^ 64 := by
      rcases signed with ⟨-, value⟩ | ⟨-, value⟩
      · omega
      · omega
    have n_lt : n < 2 ^ 64 := Nat.lt_of_le_of_lt (Nat.le_mul_of_pos_right n positive) product
    obtain ⟨m, rfl⟩ : ∃ m : U64, m.toNat = n :=
      ⟨BitVec.ofNat 64 n, by rw [BitVec.toNat_ofNat, Nat.mod_eq_of_lt n_lt]⟩
    have number := parseU64_eq_some_iff.mpr (.inl decimal)
    have times : checkedMul m ms = some (m * ms) := if_pos product
    have ticks : (m * ms).toNat = m.toNat * ms.toNat := (checkedMul_eq_some_iff.mp times).symm
    rw [← Nat.cast_mul, ← ticks] at signed
    rcases signed with ⟨rfl, value⟩ | ⟨rfl, value⟩
    · have sum : checkedAdd now (m * ms) = some v := checkedAdd_eq_some_iff.mpr (by omega)
      rw [time_eq_offset shape (by decide) unit_ascii, offset, number, okOr, ok_bind, size, okOr,
        ok_bind, shift, times, unchecked, ok_bind, if_pos rfl, sum, unchecked]
    · have difference : checkedSub now (m * ms) = some v :=
        checkedSub_eq_some_iff.mpr (by omega)
      rw [time_eq_offset shape (by decide) unit_ascii, offset, number, okOr, ok_bind, size, okOr,
        ok_bind, shift, times, unchecked, ok_bind, if_neg (by decide), if_pos rfl, difference,
        unchecked]

/-- The reader reads exactly what it does not misread, and returns every time that a text denotes
and that is a word. -/
theorem time_exact_iff (checks : Bool) (now : U64) (s : String) :
    (ReadsExactly checks now s ↔ ¬ Misread checks now s.toList) ∧
      ∀ v : U64, Denotes now s.toList v.toNat → time checks now s = .ok v :=
  ⟨readsExactly_iff, fun _ => time_of_denotes⟩

/-- `now+` stops the reader, and so does a unit beyond ASCII; an offset that leaves the word wraps
around where the build does not check. -/
theorem now_plus_panics :
    time false 1700000900000 "now+" = .error .panicked ∧
      time false 1700000900000 "now+5ä" = .error .panicked ∧
        time false 1700000900000 "now+18446744073709552s" = .ok 1700000900384 ∧
          ¬ ReadsExactly false 1700000900000 "now+" := by
  have panics : time false 1700000900000 "now+" = .error .panicked := by decide +kernel
  exact ⟨panics, by decide +kernel, by decide +kernel, fun exact => exact.1 panics⟩

end Cli

end Antumbra
