/-
# Units of UTF-16

One library counts a text in 16-bit units, another in bytes. A character of the basic plane
is one unit, any other a pair of surrogates; units that pair up with nothing are replaced.
Reading back the units of a text gives the text, and a text has as many units as bytes
exactly when it is ASCII.
-/

import Antumbra.Math.Word
import Mathlib.Algebra.GroupWithZero.Nat
import Mathlib.Data.List.Basic
import Mathlib.Data.List.DropRight

namespace Antumbra.Math

/-- A unit of UTF-16. -/
abbrev U16 := BitVec 16

namespace Unicode

/-- The first unit of a pair. -/
def IsHigh (u : U16) : Prop := 0xD800 ≤ u.toNat ∧ u.toNat < 0xDC00

/-- The second unit of a pair. -/
def IsLow (u : U16) : Prop := 0xDC00 ≤ u.toNat ∧ u.toNat < 0xE000

instance (u : U16) : Decidable (IsHigh u) := inferInstanceAs (Decidable (_ ∧ _))

instance (u : U16) : Decidable (IsLow u) := inferInstanceAs (Decidable (_ ∧ _))

/-- The units of a character. -/
def unitsOf (c : Char) : List U16 :=
  if c.toNat < 0x10000 then
    [BitVec.ofNat 16 c.toNat]
  else
    [BitVec.ofNat 16 (0xD800 + (c.toNat - 0x10000) / 0x400),
      BitVec.ofNat 16 (0xDC00 + (c.toNat - 0x10000) % 0x400)]

/-- The units of a text. -/
def units (cs : List Char) : List U16 := cs.flatMap unitsOf

/-- A unit that stands alone: a character of the basic plane, or half a pair. -/
def alone (u : U16) : Char :=
  if IsHigh u ∨ IsLow u then Char.ofNat 0xFFFD else Char.ofNat u.toNat

/-- The character of a pair. -/
def paired (u v : U16) : Char :=
  Char.ofNat (0x10000 + (u.toNat - 0xD800) * 0x400 + (v.toNat - 0xDC00))

/-- The characters of a string of units. -/
def chars : List U16 → List Char
  | [] => []
  | [u] => [alone u]
  | u :: v :: rest =>
    if IsHigh u ∧ IsLow v then paired u v :: chars rest else alone u :: chars (v :: rest)

variable {c : Char} {cs : List Char} {u v : U16}

theorem toNat_lt (c : Char) : c.toNat < 0x110000 := by
  obtain below | ⟨-, below⟩ := c.valid
  · exact Nat.lt_trans below (by decide)
  · exact below

/-- No character is half a pair. -/
theorem not_surrogate (c : Char) : c.toNat < 0xD800 ∨ 0xE000 ≤ c.toNat := by
  obtain below | ⟨above, -⟩ := c.valid
  · exact .inl below
  · exact .inr above

theorem chars_cons_alone (single : ¬ IsHigh u) (rest : List U16) :
    chars (u :: rest) = alone u :: chars rest := by
  cases rest with
  | nil => rfl
  | cons v rest => rw [chars, if_neg fun pair => single pair.1]

/-- The first character of a text reads back. -/
theorem chars_append (c : Char) (rest : List U16) :
    chars (unitsOf c ++ rest) = c :: chars rest := by
  have valid := not_surrogate c
  have below := toNat_lt c
  unfold unitsOf
  split
  · next basic =>
    have value : (BitVec.ofNat 16 c.toNat).toNat = c.toNat := by
      rw [BitVec.toNat_ofNat, Nat.mod_eq_of_lt basic]
    have single : ¬ IsHigh (BitVec.ofNat 16 c.toNat) := by
      rw [IsHigh, value]
      omega
    have whole : ¬ IsLow (BitVec.ofNat 16 c.toNat) := by
      rw [IsLow, value]
      omega
    rw [List.singleton_append, chars_cons_alone single, alone, if_neg (not_or.mpr ⟨single, whole⟩),
      value, Char.ofNat_toNat]
  · next astral =>
    rw [not_lt] at astral
    generalize offset : c.toNat - 0x10000 = n
    have split := Nat.div_add_mod n 0x400
    have high : (BitVec.ofNat 16 (0xD800 + n / 0x400)).toNat = 0xD800 + n / 0x400 := by
      rw [BitVec.toNat_ofNat, Nat.mod_eq_of_lt (by omega)]
    have low : (BitVec.ofNat 16 (0xDC00 + n % 0x400)).toNat = 0xDC00 + n % 0x400 := by
      rw [BitVec.toNat_ofNat, Nat.mod_eq_of_lt (by omega)]
    have pair : IsHigh (BitVec.ofNat 16 (0xD800 + n / 0x400)) ∧
        IsLow (BitVec.ofNat 16 (0xDC00 + n % 0x400)) := by
      rw [IsHigh, IsLow, high, low]
      omega
    rw [List.cons_append, List.cons_append, List.nil_append, chars, if_pos pair, paired, high, low,
      show 0x10000 + (0xD800 + n / 0x400 - 0xD800) * 0x400 + (0xDC00 + n % 0x400 - 0xDC00) =
        c.toNat by omega, Char.ofNat_toNat]

/-- A text reads back from its units. -/
@[simp] theorem chars_units (cs : List Char) : chars (units cs) = cs := by
  induction cs with
  | nil => rfl
  | cons c cs ih => rw [units, List.flatMap_cons, chars_append, ← units, ih]

/-! ### ASCII -/

/-- An ASCII character is its own unit. -/
theorem unitsOf_ascii (ascii : c.toNat < 128) : unitsOf c = [BitVec.ofNat 16 c.toNat] :=
  if_pos (by omega)

theorem units_ascii (ascii : ∀ c ∈ cs, c.toNat < 128) :
    units cs = cs.map fun c => BitVec.ofNat 16 c.toNat := by
  induction cs with
  | nil => rfl
  | cons c cs ih =>
    rw [units, List.flatMap_cons, unitsOf_ascii (ascii c List.mem_cons_self), ← units,
      ih fun c' mem => ascii c' (List.mem_cons_of_mem c mem)]
    rfl

/-- Only ASCII characters have ASCII units. -/
theorem ascii_of_unitsOf (ascii : ∀ u ∈ unitsOf c, u.toNat < 128) : c.toNat < 128 := by
  have below := toNat_lt c
  unfold unitsOf at ascii
  split at ascii
  · next basic =>
    have unit := ascii _ (List.mem_singleton.mpr rfl)
    rwa [BitVec.toNat_ofNat, Nat.mod_eq_of_lt basic] at unit
  · next astral =>
    have unit := ascii _ List.mem_cons_self
    rw [BitVec.toNat_ofNat, Nat.mod_eq_of_lt (by omega)] at unit
    omega

theorem ascii_units_iff : (∀ u ∈ units cs, u.toNat < 128) ↔ ∀ c ∈ cs, c.toNat < 128 := by
  refine ⟨fun ascii c mem => ?_, fun ascii u mem => ?_⟩
  · exact ascii_of_unitsOf fun u unit => ascii u (List.mem_flatMap.mpr ⟨c, mem, unit⟩)
  · rw [units_ascii ascii] at mem
    obtain ⟨c, there, rfl⟩ := List.mem_map.mp mem
    have small := ascii c there
    rwa [BitVec.toNat_ofNat, Nat.mod_eq_of_lt (by omega)]

theorem toNat_ofNat {n : ℕ} (ascii : n < 128) : (Char.ofNat n).toNat = n := by
  have valid : n.isValidChar := .inl (Nat.lt_trans ascii (by decide))
  rw [Char.ofNat, dif_pos valid]
  rfl

/-- ASCII units are the units of a text. -/
theorem exists_units {us : List U16} (ascii : ∀ u ∈ us, u.toNat < 128) :
    ∃ cs, units cs = us := by
  refine ⟨us.map fun u => Char.ofNat u.toNat, ?_⟩
  have letters : ∀ c ∈ us.map fun u => Char.ofNat u.toNat, c.toNat < 128 := by
    intro c mem
    obtain ⟨u, there, rfl⟩ := List.mem_map.mp mem
    rw [toNat_ofNat (ascii u there)]
    exact ascii u there
  rw [units_ascii letters, List.map_map]
  refine (List.map_congr_left fun u mem => ?_).trans (List.map_id us)
  rw [Function.comp_apply, toNat_ofNat (ascii u mem), BitVec.ofNat_toNat, BitVec.setWidth_eq, id]

theorem utf8Size_eq (c : Char) : c.utf8Size =
    if c.toNat < 0x80 then 1 else if c.toNat < 0x800 then 2
    else if c.toNat < 0x10000 then 3 else 4 := by
  have le (n : UInt32) : c.val ≤ n ↔ c.toNat ≤ n.toNat := UInt32.le_iff_toNat_le
  simp only [Char.utf8Size, le, UInt32.toNat_ofNatLT, Nat.lt_iff_le_pred (by decide : 0 < 0x80),
    Nat.lt_iff_le_pred (by decide : 0 < 0x800), Nat.lt_iff_le_pred (by decide : 0 < 0x10000)]

/-- A character has no more units than bytes, and fewer unless it is ASCII. -/
theorem length_unitsOf (c : Char) :
    (unitsOf c).length ≤ c.utf8Size ∧ (128 ≤ c.toNat → (unitsOf c).length < c.utf8Size) := by
  rw [utf8Size_eq]
  unfold unitsOf
  split_ifs
  all_goals simp only [List.length_cons, List.length_nil]
  all_goals omega

theorem length_units_le (cs : List Char) :
    (units cs).length ≤ (cs.map Char.utf8Size).sum := by
  induction cs with
  | nil => exact Nat.zero_le _
  | cons c cs ih =>
    rw [units, List.flatMap_cons, List.length_append, ← units, List.map_cons, List.sum_cons]
    exact Nat.add_le_add (length_unitsOf c).1 ih

theorem length_units_lt {cs : List Char} (mem : c ∈ cs) (wide : 128 ≤ c.toNat) :
    (units cs).length < (cs.map Char.utf8Size).sum := by
  obtain ⟨before, after, rfl⟩ := List.append_of_mem mem
  have first := length_units_le before
  have last := length_units_le after
  have here := (length_unitsOf c).2 wide
  simp only [units, List.flatMap_append, List.flatMap_cons, List.length_append, List.map_append,
    List.map_cons, List.sum_append, List.sum_cons] at first last ⊢
  omega

/-! ### Trimming -/

/-- The characters whose one unit is in a class. -/
def inClass (p : U16 → Bool) (c : Char) : Bool :=
  decide (c.toNat < 0xD800) && p (BitVec.ofNat 16 c.toNat)

variable {p : U16 → Bool}

/-- The units of a character are all in a class of characters or all outside it. -/
theorem inClass_unitsOf (whole : ∀ u, p u = true → u.toNat < 0xD800) (c : Char) :
    ∀ u ∈ unitsOf c, p u = inClass p c := by
  intro u mem
  have valid := not_surrogate c
  have below := toNat_lt c
  have out (h : 0xD800 ≤ u.toNat) : p u = false :=
    Bool.eq_false_iff.mpr fun yes => absurd (whole u yes) (not_lt.mpr h)
  unfold unitsOf at mem
  split at mem
  · next basic =>
    obtain rfl := List.mem_singleton.mp mem
    rw [BitVec.toNat_ofNat, Nat.mod_eq_of_lt basic] at out
    unfold inClass
    rcases valid with low | high
    · rw [decide_eq_true low, Bool.true_and]
    · rw [out (by omega), decide_eq_false (by omega), Bool.false_and]
  · next astral =>
    have high : 0xD800 ≤ u.toNat := by
      rcases List.mem_cons.mp mem with rfl | second
      · rw [BitVec.toNat_ofNat, Nat.mod_eq_of_lt (by omega)]
        omega
      · obtain rfl := List.mem_singleton.mp second
        rw [BitVec.toNat_ofNat, Nat.mod_eq_of_lt (by omega)]
        omega
    rw [out high, inClass, decide_eq_false (by omega), Bool.false_and]

theorem unitsOf_ne_nil (c : Char) : unitsOf c ≠ [] := by
  unfold unitsOf
  split
  · exact List.cons_ne_nil _ _
  · exact List.cons_ne_nil _ _

/-- Dropping a prefix commutes with an expansion that keeps a class apart. -/
theorem dropWhile_flatMap {α β : Type} {p : β → Bool} {q : α → Bool} {f : α → List β}
    (some : ∀ a, f a ≠ []) (apart : ∀ a, ∀ b ∈ f a, p b = q a) (l : List α) :
    (l.flatMap f).dropWhile p = (l.dropWhile q).flatMap f := by
  induction l with
  | nil => rfl
  | cons a l ih =>
    rw [List.flatMap_cons]
    by_cases dropped : q a = true
    · rw [List.dropWhile_append_of_pos fun b mem => (apart a b mem).trans dropped, ih,
        List.dropWhile_cons_of_pos dropped]
    · rw [List.dropWhile_cons_of_neg dropped]
      obtain ⟨b, rest, first⟩ := List.exists_cons_of_ne_nil (some a)
      have kept : ¬ p b = true := by rwa [apart a b (first ▸ List.mem_cons_self)]
      rw [List.flatMap_cons, first, List.cons_append, List.dropWhile_cons_of_neg kept]

theorem units_dropWhile (whole : ∀ u, p u = true → u.toNat < 0xD800) (cs : List Char) :
    (units cs).dropWhile p = units (cs.dropWhile (inClass p)) :=
  dropWhile_flatMap unitsOf_ne_nil (inClass_unitsOf whole) cs

theorem units_rdropWhile (whole : ∀ u, p u = true → u.toNat < 0xD800) (cs : List Char) :
    (units cs).rdropWhile p = units (cs.rdropWhile (inClass p)) := by
  have mirrored (l : List Char) :
      (units l).reverse = l.reverse.flatMap fun c => (unitsOf c).reverse := List.reverse_flatMap
  have reversed := dropWhile_flatMap (f := fun c => (unitsOf c).reverse)
    (fun c none => unitsOf_ne_nil c (List.reverse_eq_nil_iff.mp none))
    (fun c u mem => inClass_unitsOf whole c u (List.mem_reverse.mp mem)) cs.reverse
  apply List.reverse_injective
  rw [List.rdropWhile, List.rdropWhile, mirrored, mirrored, reversed, List.reverse_reverse,
    List.reverse_reverse]

end Unicode

end Antumbra.Math
