import Mathlib.Logic.Function.Basic
import Mathlib.Tactic.Common

/-!
# Descriptor tables

The descriptors of a process and what they refer to. A new descriptor is the lowest closed one;
`dup2` makes a second descriptor of an open one and replaces what the new one referred to.
-/

namespace DescriptorTable

universe u

/-- `none` is a closed descriptor. -/
abbrev Table (F : Type u) := Nat → Option F

variable {F : Type u} {t t' : Table F} {fd fd' old new : Nat} {f : F}

/-- The lowest closed descriptor. -/
def Lowest (t : Table F) (fd : Nat) : Prop := t fd = none ∧ ∀ k < fd, t k ≠ none

instance [DecidableEq F] (t : Table F) (fd : Nat) : Decidable (Lowest t fd) :=
  inferInstanceAs (Decidable (_ ∧ _))

def openAt (t : Table F) (fd : Nat) (f : F) : Table F := Function.update t fd (some f)

def close (t : Table F) (fd : Nat) : Table F := Function.update t fd none

/-- Fails where `old` is closed. -/
def dup2 (t : Table F) (old new : Nat) : Option (Table F) :=
  (t old).map fun f => Function.update t new (some f)

@[simp] theorem openAt_self : openAt t fd f fd = some f := Function.update_self ..

theorem openAt_of_ne (h : fd' ≠ fd) : openAt t fd f fd' = t fd' := Function.update_of_ne h ..

@[simp] theorem close_self : close t fd fd = none := Function.update_self ..

theorem close_of_ne (h : fd' ≠ fd) : close t fd fd' = t fd' := Function.update_of_ne h ..

theorem dup2_of_open (h : t old = some f) : dup2 t old new = some (openAt t new f) := by
  rw [dup2, h]
  rfl

namespace Lowest

theorem closed (h : Lowest t fd) : t fd = none := h.1

theorem le (h : Lowest t fd) (hfd : t fd' = none) : fd ≤ fd' :=
  Nat.le_of_not_lt fun hlt => h.2 fd' hlt hfd

theorem unique (h : Lowest t fd) (h' : Lowest t fd') : fd = fd' :=
  Nat.le_antisymm (h.le h'.closed) (h'.le h.closed)

/-- The next descriptor is a higher one. -/
theorem lt_next (h : Lowest t fd) (h' : Lowest (openAt t fd f) fd') : fd < fd' := by
  have hne : fd' ≠ fd := by
    rintro rfl
    exact absurd (openAt_self.symm.trans h'.closed) (Option.some_ne_none f)
  have hclosed : t fd' = none := (openAt_of_ne hne).symm.trans h'.closed
  exact Nat.lt_of_le_of_ne (h.le hclosed) hne.symm

/-- What is below a lowest descriptor is open, so that the descriptor is as low as the closed
descriptors let it be. -/
theorem eq_iff (h : Lowest t fd) : fd = fd' ↔ t fd' = none ∧ ∀ k < fd', t k ≠ none :=
  ⟨fun he => he ▸ h, fun h' => h.unique h'⟩

end Lowest

/-! ## Closing from a descriptor on -/

/-- Closes the descriptors of a list. -/
def closeAll (t : Table F) (fds : List Nat) : Table F := fds.foldl close t

theorem closeAll_apply (t : Table F) (fds : List Nat) (fd : Nat) :
    closeAll t fds fd = if fd ∈ fds then none else t fd := by
  induction fds generalizing t with
  | nil => rfl
  | cons a fds ih =>
    rw [closeAll, List.foldl_cons, ← closeAll, ih]
    rcases eq_or_ne fd a with rfl | hne
    · rw [close_self, ite_self, if_pos List.mem_cons_self]
    · simp only [close_of_ne hne, List.mem_cons, hne, false_or]

end DescriptorTable
