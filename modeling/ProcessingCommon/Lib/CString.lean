import Mathlib.Algebra.Group.Int.Defs
import ProcessingCommon.Lib.BasicString

/-!
# Decimal numbers in C strings

`atoi` of a string of bytes, and the decimal form of a number that it reads back.
-/

namespace CString

open BasicString

/-- `isspace` of the C locale. -/
def isSpace (c : UInt8) : Bool := c == 32 || (decide (9 ≤ c) && decide (c ≤ 13))

def isDigit (c : UInt8) : Bool := decide (48 ≤ c) && decide (c ≤ 57)

/-- The value of the digits at the front. -/
def digitsValue (str : List UInt8) : Nat :=
  (str.takeWhile isDigit).foldl (fun n c => 10 * n + (c.toNat - 48)) 0

/-- `strtol(str, NULL, 10)`: the value is cut to the range of a `long`. -/
def strtol (str : List UInt8) : Int :=
  let digits := str.dropWhile isSpace
  if digits.head? = some '-'.toUInt8 then max (-(digitsValue digits.tail : Int)) (-2 ^ 63)
  else if digits.head? = some '+'.toUInt8 then min (digitsValue digits.tail : Int) (2 ^ 63 - 1)
  else min (digitsValue digits : Int) (2 ^ 63 - 1)

/-- `atoi(str)`: the value of `strtol` as an `int`. -/
def atoi (str : List UInt8) : Int := (strtol (cStr 0 str)).bmod (2 ^ 32)

/-- The digits of a number. -/
def decimal (n : Nat) : List UInt8 := (Nat.toDigits 10 n).map Char.toUInt8

variable {n : Nat} {c : UInt8} {rest : List UInt8}

/-- A digit as a byte keeps its code. -/
theorem toUInt8_digit {c : Char} (h : c.isDigit = true) :
    isDigit c.toUInt8 = true ∧ c.toUInt8.toNat = c.toNat := by
  rw [Char.isDigit, Bool.and_eq_true, decide_eq_true_eq, decide_eq_true_eq] at h
  have hlo : 48 ≤ c.toNat := UInt32.le_iff_toNat_le.mp h.1
  have hhi : c.toNat ≤ 57 := UInt32.le_iff_toNat_le.mp h.2
  have hn : c.toUInt8.toNat = c.toNat := by
    rw [Char.toUInt8, UInt32.toNat_toUInt8]
    exact Nat.mod_eq_of_lt (by show c.toNat < _; omega)
  refine ⟨?_, hn⟩
  rw [isDigit, Bool.and_eq_true, decide_eq_true_eq, decide_eq_true_eq, UInt8.le_iff_toNat_le,
    UInt8.le_iff_toNat_le, hn]
  exact ⟨hlo, hhi⟩

theorem isDigit_of_mem_decimal (h : c ∈ decimal n) : isDigit c = true := by
  obtain ⟨d, hd, rfl⟩ := List.mem_map.mp h
  exact (toUInt8_digit (Nat.isDigit_of_mem_toDigits (by decide) (by decide) hd)).1

theorem decimal_ne_nil (n : Nat) : decimal n ≠ [] :=
  fun h => Nat.toDigits_ne_nil (List.map_eq_nil_iff.mp h)

/-- A digit is no terminator, no blank and no sign. -/
theorem isDigit_ne (h : isDigit c = true) :
    c ≠ 0 ∧ isSpace c = false ∧ c ≠ '-'.toUInt8 ∧ c ≠ '+'.toUInt8 := by
  have hspace : isSpace c = false := by
    cases hs : isSpace c with
    | false => rfl
    | true =>
      rw [isDigit, Bool.and_eq_true, decide_eq_true_eq, UInt8.le_iff_toNat_le] at h
      rw [isSpace, Bool.or_eq_true, beq_iff_eq, Bool.and_eq_true, decide_eq_true_eq,
        decide_eq_true_eq, UInt8.le_iff_toNat_le, UInt8.le_iff_toNat_le] at hs
      rcases hs with rfl | hs
      · exact absurd h.1 (by decide)
      · exact absurd (Nat.le_trans h.1 hs.2) (by decide)
  refine ⟨?_, hspace, ?_, ?_⟩
  all_goals
    intro hc
    subst hc
    exact absurd h (by decide)

/-- The digits are read back up to what follows them. -/
theorem digitsValue_decimal (n : Nat) (h : ∀ c ∈ rest.head?, isDigit c = false) :
    digitsValue (decimal n ++ rest) = n := by
  have hrest : rest.takeWhile isDigit = [] := by
    cases rest with
    | nil => rfl
    | cons c rest => rw [List.takeWhile_cons_of_neg (by rw [h c rfl]; exact Bool.false_ne_true)]
  rw [digitsValue, List.takeWhile_append_of_pos fun c => isDigit_of_mem_decimal, hrest,
    List.append_nil, decimal, List.foldl_map]
  conv => rhs; rw [← @Nat.ofDigitChars_ten_toDigits n, Nat.ofDigitChars_eq_foldl]
  refine List.foldl_ext _ _ _ fun m c hc => ?_
  rw [(toUInt8_digit (Nat.isDigit_of_mem_toDigits (by decide) (by decide) hc)).2]
  rfl

theorem strtol_decimal (h : ∀ c ∈ rest.head?, isDigit c = false) (hn : n < 2 ^ 63) :
    strtol (decimal n ++ rest) = n := by
  obtain ⟨d, ds, hd⟩ := List.exists_cons_of_ne_nil (decimal_ne_nil n)
  have hdigit : isDigit d = true := isDigit_of_mem_decimal (by rw [hd]; exact List.mem_cons_self)
  obtain ⟨-, hspace, hminus, hplus⟩ := isDigit_ne hdigit
  have hdrop : (decimal n ++ rest).dropWhile isSpace = decimal n ++ rest := by
    rw [hd, List.cons_append,
      List.dropWhile_cons_of_neg (by rw [hspace]; exact Bool.false_ne_true)]
  have hhead : (decimal n ++ rest).head? = some d := by
    rw [hd]
    rfl
  unfold strtol
  rw [hdrop]
  dsimp only
  rw [hhead, if_neg fun he => hminus (Option.some_inj.mp he),
    if_neg fun he => hplus (Option.some_inj.mp he), digitsValue_decimal n h]
  omega

/-- `atoi` stops at the terminator or at what is no digit. -/
theorem atoi_decimal (h : ∀ c ∈ rest.head?, isDigit c = false) (hn : n < 2 ^ 31) :
    atoi (decimal n ++ rest) = n := by
  have hcut : cStr 0 (decimal n ++ rest) = decimal n ++ cStr 0 rest :=
    List.takeWhile_append_of_pos fun c hc =>
      decide_eq_true (isDigit_ne (isDigit_of_mem_decimal hc)).1
  have hhead : ∀ c ∈ (cStr 0 rest).head?, isDigit c = false := by
    cases rest with
    | nil =>
      intro c hc
      cases hc
    | cons e rest =>
      intro c hc
      rw [cStr, List.takeWhile_cons] at hc
      split at hc
      · exact h c hc
      · cases hc
  rw [atoi, hcut, strtol_decimal hhead (by omega)]
  exact Int.bmod_eq_of_le (by omega) (by omega)

end CString
