import Mathlib.Algebra.Field.Rat
import Mathlib.Algebra.Order.Ring.Nat
import Mathlib.Algebra.Order.Ring.Rat
import Mathlib.Tactic.NormNum
import Mathlib.Tactic.Positivity
import ProcessingCommon.Lib.CString

/-!
# Decimal numbers padded with zeros

What a stream prints of a number under `setw` with zeros to fill, the value of such a text as a
decimal fraction, and its place in the lexicographic order. The order of two numbers of different
widths is decided by what ends them.
-/

namespace CString

/-- The text of an `int`. -/
def decimalInt : Int → List UInt8
  | .ofNat n => decimal n
  | .negSucc n => '-'.toUInt8 :: decimal (n + 1)

/-- The field `s` under `setw(w)` and `setfill(fill)`. -/
def setw (w : Nat) (fill : UInt8) (s : List UInt8) : List UInt8 :=
  List.replicate (w - s.length) fill ++ s

/-- The last digit of a number. -/
def digitByte (n : Nat) : UInt8 := UInt8.ofNat (48 + n % 10)

/-- The last `w` digits of a number. -/
def fixed : Nat → Nat → List UInt8
  | 0, _ => []
  | w + 1, n => fixed w (n / 10) ++ [digitByte n]

/-- The number that is written `0.s`. -/
def fraction (s : List UInt8) : Option ℚ :=
  if s ≠ [] ∧ s.all isDigit = true then some (digitsValue s / 10 ^ s.length) else none

variable {m n w k : Nat} {c : UInt8} {s t : List UInt8}

/-! ## Digits -/

theorem digitByte_toNat (n : Nat) : (digitByte n).toNat = 48 + n % 10 := by
  have : n % 10 < 10 := Nat.mod_lt _ (by decide)
  exact UInt8.toNat_ofNat_of_lt' (show 48 + n % 10 < 256 by omega)

theorem isDigit_iff : isDigit c = true ↔ 48 ≤ c.toNat ∧ c.toNat ≤ 57 := by
  rw [isDigit, Bool.and_eq_true, decide_eq_true_eq, decide_eq_true_eq, UInt8.le_iff_toNat_le,
    UInt8.le_iff_toNat_le]
  exact Iff.rfl

theorem isDigit_digitByte (n : Nat) : isDigit (digitByte n) = true := by
  rw [isDigit_iff, digitByte_toNat]
  have : n % 10 < 10 := Nat.mod_lt _ (by decide)
  omega

@[simp] theorem fixed_length (w n : Nat) : (fixed w n).length = w := by
  induction w generalizing n with
  | zero => rfl
  | succ w ih => rw [fixed, List.length_append, ih, List.length_singleton]

theorem fixed_ne_nil (hw : 0 < w) (n : Nat) : fixed w n ≠ [] := by
  rw [← List.length_pos_iff, fixed_length]
  exact hw

theorem isDigit_of_mem_fixed (h : c ∈ fixed w n) : isDigit c = true := by
  induction w generalizing n with
  | zero => cases h
  | succ w ih =>
    rw [fixed, List.mem_append, List.mem_singleton] at h
    rcases h with h | rfl
    · exact ih h
    · exact isDigit_digitByte n

theorem fixed_zero (w : Nat) : fixed w 0 = List.replicate w 48 := by
  induction w with
  | zero => rfl
  | succ w ih =>
    rw [fixed, Nat.zero_div, ih, List.replicate_succ']
    rfl

/-- The first digits of a number are those of a quotient. -/
theorem fixed_add (w k n : Nat) : fixed (w + k) n = fixed w (n / 10 ^ k) ++ fixed k n := by
  induction k generalizing n with
  | zero => rw [Nat.add_zero, Nat.pow_zero, Nat.div_one, fixed, List.append_nil]
  | succ k ih =>
    rw [← Nat.add_assoc, fixed, ih, fixed, Nat.div_div_eq_div_mul, ← Nat.pow_succ',
      List.append_assoc]

/-! ## What is printed -/

theorem decimal_of_lt (h : n < 10) : decimal n = [digitByte n] := by
  have hd := Nat.toNat_digitChar_of_lt_ten h
  have hc := toUInt8_digit (c := n.digitChar)
    (Nat.isDigit_of_mem_toDigits (b := 10) (n := n) (by decide) (by decide)
      (by rw [Nat.toDigits_of_lt_base h]; exact List.mem_cons_self))
  rw [decimal, Nat.toDigits_of_lt_base h, List.map_singleton, List.cons.injEq]
  refine ⟨?_, rfl⟩
  rw [← UInt8.toNat_inj, hc.2, hd, digitByte_toNat, Nat.mod_eq_of_lt h]

theorem decimal_of_le (h : 10 ≤ n) : decimal n = decimal (n / 10) ++ [digitByte n] := by
  have hlast := decimal_of_lt (n := n % 10) (Nat.mod_lt _ (by decide))
  have hmod : digitByte (n % 10) = digitByte n := by rw [digitByte, Nat.mod_mod, ← digitByte]
  rw [decimal, Nat.toDigits_of_lt_base (Nat.mod_lt _ (by decide)), hmod] at hlast
  rw [decimal, Nat.toDigits_of_base_le (by decide) h, List.map_append, ← decimal]
  exact congrArg _ hlast

theorem decimal_length_pos (n : Nat) : 0 < (decimal n).length :=
  List.length_pos_of_ne_nil (decimal_ne_nil n)

theorem decimal_length_le (h : 0 < k) : (decimal n).length ≤ k ↔ n < 10 ^ k := by
  rw [decimal, List.length_map]
  exact Nat.length_toDigits_le_iff (by decide) h

theorem lt_pow_decimal_length (n : Nat) : n < 10 ^ (decimal n).length :=
  (decimal_length_le (decimal_length_pos n)).mp (Nat.le_refl _)

theorem decimal_length_mono (h : m ≤ n) : (decimal m).length ≤ (decimal n).length :=
  (decimal_length_le (decimal_length_pos n)).mpr
    (Nat.lt_of_le_of_lt h (lt_pow_decimal_length n))

theorem decimal_eq_fixed (n : Nat) : decimal n = fixed (decimal n).length n := by
  induction n using Nat.strongRecOn with
  | ind n ih =>
    rcases Nat.lt_or_ge n 10 with h | h
    · rw [decimal_of_lt h]
      rfl
    · rw [decimal_of_le h, List.length_append, List.length_singleton, fixed,
        ← ih (n / 10) (Nat.div_lt_self (by omega) (by decide))]

/-- A padded number has its digits, or as many as it is padded to. -/
theorem setw_decimal (w n : Nat) :
    setw w 48 (decimal n) = fixed (max w (decimal n).length) n := by
  have hmax : max w (decimal n).length = (w - (decimal n).length) + (decimal n).length := by omega
  rw [hmax, fixed_add, Nat.div_eq_of_lt (lt_pow_decimal_length n), fixed_zero, ← decimal_eq_fixed]
  rfl

theorem setw_decimal_of_lt (hw : 0 < w) (h : n < 10 ^ w) : setw w 48 (decimal n) = fixed w n := by
  rw [setw_decimal, Nat.max_eq_left ((decimal_length_le hw).mpr h)]

/-! ## What is read -/

theorem takeWhile_fixed (w n : Nat) : (fixed w n).takeWhile isDigit = fixed w n :=
  List.takeWhile_eq_self_iff.mpr fun _ => isDigit_of_mem_fixed

/-- The last digits are the number up to a power of ten. -/
theorem digitsValue_fixed_mod (w n : Nat) : digitsValue (fixed w n) = n % 10 ^ w := by
  rw [digitsValue, takeWhile_fixed]
  induction w generalizing n with
  | zero => rw [Nat.pow_zero, Nat.mod_one, fixed, List.foldl_nil]
  | succ w ih =>
    rw [fixed, List.foldl_append, ih, List.foldl_cons, List.foldl_nil, digitByte_toNat,
      Nat.pow_succ', Nat.mod_mul]
    omega

theorem digitsValue_fixed (h : n < 10 ^ w) : digitsValue (fixed w n) = n := by
  rw [digitsValue_fixed_mod, Nat.mod_eq_of_lt h]

theorem fixed_inj (hm : m < 10 ^ w) (hn : n < 10 ^ w) : fixed w m = fixed w n ↔ m = n := by
  constructor
  · intro h
    rw [← digitsValue_fixed hm, h, digitsValue_fixed hn]
  · intro h
    rw [h]

theorem fraction_fixed (hw : 0 < w) (h : n < 10 ^ w) :
    fraction (fixed w n) = some (n / 10 ^ w : ℚ) := by
  rw [fraction, if_pos, digitsValue_fixed h, fixed_length]
  exact ⟨fixed_ne_nil hw n, List.all_eq_true.mpr fun _ => isDigit_of_mem_fixed⟩

theorem fraction_eq_none (hc : c ∈ s) (h : isDigit c = false) : fraction s = none := by
  rw [fraction, if_neg]
  rintro ⟨-, hall⟩
  rw [List.all_eq_true.mp hall c hc] at h
  cases h

/-! ## The order of texts -/

theorem append_lt_append_iff {a b s t : List UInt8} (h : a.length = b.length) :
    a ++ s < b ++ t ↔ a < b ∨ a = b ∧ s < t := by
  induction a generalizing b with
  | nil =>
    cases b with
    | nil => simp
    | cons y b => cases h
  | cons x a ih =>
    cases b with
    | nil => cases h
    | cons y b =>
      rw [List.cons_append, List.cons_append, List.cons_lt_cons_iff,
        ih (Nat.succ_inj.mp h), List.cons_lt_cons_iff, List.cons.injEq]
      tauto

/-- Of two texts, the parts of one length decide before the rest. -/
theorem append_le_append_iff {a b s t : List UInt8} (h : a.length = b.length) :
    a ++ s ≤ b ++ t ↔ a < b ∨ a = b ∧ s ≤ t := by
  induction a generalizing b with
  | nil =>
    cases b with
    | nil => simp
    | cons y b => cases h
  | cons x a ih =>
    cases b with
    | nil => cases h
    | cons y b =>
      rw [List.cons_append, List.cons_append, List.cons_le_cons_iff,
        ih (Nat.succ_inj.mp h), List.cons_lt_cons_iff, List.cons.injEq]
      tauto

theorem prefix_le_prefix_iff (a : List UInt8) : a ++ s ≤ a ++ t ↔ s ≤ t := by
  rw [append_le_append_iff rfl]
  constructor
  · rintro (h | h)
    · exact absurd h (List.lt_irrefl a)
    · exact h.2
  · exact fun h => .inr ⟨rfl, h⟩

theorem digitByte_lt_digitByte : digitByte m < digitByte n ↔ m % 10 < n % 10 := by
  rw [UInt8.lt_iff_toNat_lt, digitByte_toNat, digitByte_toNat]
  omega

/-- Numbers of one width are ordered as their texts. -/
theorem fixed_lt_fixed (hm : m < 10 ^ w) (hn : n < 10 ^ w) : fixed w m < fixed w n ↔ m < n := by
  induction w generalizing m n with
  | zero =>
    rw [Nat.pow_zero] at hm hn
    simp only [fixed, List.not_lt_nil, false_iff]
    omega
  | succ w ih =>
    rw [Nat.pow_succ] at hm hn
    have hm' : m / 10 < 10 ^ w := by omega
    have hn' : n / 10 < 10 ^ w := by omega
    rw [fixed, fixed, append_lt_append_iff (by simp), ih hm' hn', fixed_inj hm' hn',
      List.cons_lt_cons_iff, digitByte_lt_digitByte]
    simp only [List.not_lt_nil, and_false, or_false]
    omega

theorem fixed_lt_fixed_append (hm : m < 10 ^ w) (hn : n < 10 ^ w) :
    fixed w m ++ s < fixed w n ++ t ↔ m < n ∨ m = n ∧ s < t := by
  rw [append_lt_append_iff (by simp), fixed_lt_fixed hm hn, fixed_inj hm hn]

/-- Numbers of one width, with what separates them from the rest. -/
theorem fixed_lt_fixed_cons (hm : m < 10 ^ w) (hn : n < 10 ^ w) :
    fixed w m ++ c :: s < fixed w n ++ c :: t ↔ m < n ∨ m = n ∧ s < t := by
  rw [fixed_lt_fixed_append hm hn, List.cons_lt_cons_self]

theorem fixed_le_fixed_append (hm : m < 10 ^ w) (hn : n < 10 ^ w) :
    fixed w m ++ s ≤ fixed w n ++ t ↔ m < n ∨ m = n ∧ s ≤ t := by
  rw [append_le_append_iff (by simp), fixed_lt_fixed hm hn, fixed_inj hm hn]

theorem fixed_succ_cons (k n : Nat) : ∃ d r, fixed (k + 1) n = d :: r ∧ isDigit d = true := by
  obtain ⟨d, r, hr⟩ := List.exists_cons_of_ne_nil (fixed_ne_nil (Nat.succ_pos k) n)
  have hd : d ∈ fixed (k + 1) n := by
    rw [hr]
    exact List.mem_cons_self
  exact ⟨d, r, hr, isDigit_of_mem_fixed hd⟩

/-- A text that goes on with digits is before one that goes on behind them. -/
theorem fixed_lt_cons (hc : 57 < c.toNat) : fixed (k + 1) n ++ s < c :: t := by
  obtain ⟨d, r, hr, hd⟩ := fixed_succ_cons k n
  rw [isDigit_iff] at hd
  rw [hr, List.cons_append, List.cons_lt_cons_iff, UInt8.lt_iff_toNat_lt]
  left
  omega

/-- A text that goes on before the digits is before one that goes on with them. -/
theorem cons_lt_fixed (hc : c.toNat < 48) : c :: t < fixed (k + 1) n ++ s := by
  obtain ⟨d, r, hr, hd⟩ := fixed_succ_cons k n
  rw [isDigit_iff] at hd
  rw [hr, List.cons_append, List.cons_lt_cons_iff, UInt8.lt_iff_toNat_lt]
  left
  omega

/-- The narrower number first: it has to be below the first digits of the wider one. -/
theorem fixed_le_wider (hm : m < 10 ^ w) (hn : n < 10 ^ (w + k)) (hc : 57 < c.toNat) :
    fixed w m ++ [c] ≤ fixed (w + k) n ++ [c] ↔ m < n / 10 ^ k ∨ k = 0 ∧ m = n := by
  have hq : n / 10 ^ k < 10 ^ w := by
    rw [Nat.div_lt_iff_lt_mul (by positivity), ← Nat.pow_add]
    exact hn
  rw [fixed_add, List.append_assoc, fixed_le_fixed_append hm hq]
  cases k with
  | zero =>
    rw [Nat.pow_zero, Nat.div_one, fixed, List.nil_append]
    simp
  | succ k =>
    have hnot : ¬ [c] ≤ fixed (k + 1) n ++ [c] := fun h => h (fixed_lt_cons hc)
    simp [hnot]

/-- The wider number first: its first digits must not be above the narrower one. -/
theorem fixed_le_narrower (hm : m < 10 ^ (w + k)) (hn : n < 10 ^ w) (hc : 57 < c.toNat) :
    fixed (w + k) m ++ [c] ≤ fixed w n ++ [c] ↔ m / 10 ^ k ≤ n := by
  have hq : m / 10 ^ k < 10 ^ w := by
    rw [Nat.div_lt_iff_lt_mul (by positivity), ← Nat.pow_add]
    exact hm
  have hle : fixed k m ++ [c] ≤ [c] := by
    cases k with
    | zero => exact List.le_refl _
    | succ k => exact List.le_of_lt (fixed_lt_cons hc)
  rw [fixed_add, List.append_assoc, fixed_le_fixed_append hq hn, Nat.le_iff_lt_or_eq]
  simp [hle]

end CString
