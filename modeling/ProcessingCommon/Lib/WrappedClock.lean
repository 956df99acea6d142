import Mathlib.Data.UInt

/-!
# A clock that wraps

A steady clock of natural numbers, read through 32 bits. The difference of two readings loses whole
turns of the clock and gains nothing: a wait by differences is never over early, and it is over in
time for whoever looks at it often enough.
-/

namespace WrappedClock

variable {a b : Nat} {d : UInt32}

theorem elapsed (h : a ≤ b) : (UInt32.ofNat b - UInt32.ofNat a).toNat = (b - a) % 2 ^ 32 := by
  rw [UInt32.toNat_sub, UInt32.toNat_ofNat', UInt32.toNat_ofNat']
  omega

/-- A wait that is over has lasted. -/
theorem le_of_over (h : a ≤ b) (hover : ¬ UInt32.ofNat b - UInt32.ofNat a < d) :
    a + d.toNat ≤ b := by
  rw [UInt32.lt_iff_toNat_lt, elapsed h] at hover
  have hle := Nat.mod_le (b - a) (2 ^ 32)
  omega

/-- Within one turn of the clock the wait is as long as it was meant to be. -/
theorem waits_iff (h : a ≤ b) (hturn : b < a + 2 ^ 32) :
    UInt32.ofNat b - UInt32.ofNat a < d ↔ b < a + d.toNat := by
  rw [UInt32.lt_iff_toNat_lt, elapsed h, Nat.mod_eq_of_lt (by omega)]
  omega

/-- Whoever looks at the clock before a turn of it has passed since the wait was last seen going on
does not miss its end. -/
theorem waits_iff_of_seen {seen : Nat} (h : a ≤ b) (hseen : a ≤ seen → seen < a + d.toNat)
    (hgap : b + d.toNat ≤ seen + 2 ^ 32) :
    UInt32.ofNat b - UInt32.ofNat a < d ↔ b < a + d.toNat := by
  have hd := d.toNat_lt
  refine waits_iff h ?_
  by_cases hs : a ≤ seen
  · have hlt := hseen hs
    omega
  · omega

/-- Any reading comes after some time. -/
theorem exists_wait (a : Nat) (c : UInt32) : ∃ ms, UInt32.ofNat (a + ms) = c := by
  refine ⟨(c - UInt32.ofNat a).toNat, ?_⟩
  rw [UInt32.ofNat_add, UInt32.ofNat_toNat, UInt32.add_comm, UInt32.sub_add_cancel]

end WrappedClock
