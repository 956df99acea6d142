import Mathlib.Tactic.Common

/-!
# Letters written as two digits

A letter is split into a high and a low digit and joined again. A text is written digit by digit
and read two digits at a time.
-/

namespace ProcessingCommon

/-- A bijection between letters and pairs of digits. -/
structure PairCode (β δ : Type) where
  split : β → δ × δ
  join : δ → δ → β
  join_split : ∀ b, join (split b).1 (split b).2 = b
  split_join : ∀ high low, split (join high low) = (high, low)

namespace PairCode

variable {β δ : Type} (code : PairCode β δ)

def write : List β → List δ
  | [] => []
  | b :: text => (code.split b).1 :: (code.split b).2 :: write text

/-- A digit that is left alone is no letter. -/
def read : List δ → List β
  | [] => []
  | [_] => []
  | high :: low :: digits => code.join high low :: read digits

/-- An odd number of digits gets a leading zero. -/
def pad (zero : δ) (digits : List δ) : List δ :=
  if digits.length % 2 = 1 then zero :: digits else digits

variable {zero : δ} {digits : List δ}

theorem write_length (text : List β) : (code.write text).length = 2 * text.length := by
  induction text with
  | nil => rfl
  | cons b text ih =>
    rw [write, List.length_cons, List.length_cons, ih, List.length_cons]
    omega

theorem pad_even (h : digits.length % 2 = 0) : pad zero digits = digits := by
  rw [pad, if_neg (by omega)]

theorem length_pad (zero : δ) (digits : List δ) : (pad zero digits).length % 2 = 0 := by
  unfold pad
  split
  · rw [List.length_cons]
    omega
  · omega

theorem read_write (text : List β) : code.read (code.write text) = text := by
  induction text with
  | nil => rfl
  | cons b text ih => rw [write, read, code.join_split, ih]

theorem write_read (h : digits.length % 2 = 0) : code.write (code.read digits) = digits := by
  induction digits using read.induct with
  | case1 => rfl
  | case2 digit => cases h
  | case3 high low digits ih =>
    have hd : digits.length % 2 = 0 := by
      rw [List.length_cons, List.length_cons] at h
      omega
    rw [read, write, code.split_join, ih hd]

/-- The digits of a text need no padding. -/
theorem read_pad_write (text : List β) : code.read (pad zero (code.write text)) = text := by
  rw [pad_even (by rw [write_length]; omega), code.read_write]

theorem write_read_pad (zero : δ) (digits : List δ) :
    code.write (code.read (pad zero digits)) = pad zero digits :=
  code.write_read (length_pad zero digits)

end PairCode
end ProcessingCommon
