import Mathlib.Order.Bounds.Basic
import Mathlib.Tactic.Common

/-!
# The nearest position with a property

The result of a search that goes up or down from a position, one step at a time, and stops at
the first position with a property or at the end.
-/

/-- The least position above `c` with the property, or `n` if there is none. -/
def NearestAbove (E : Nat → Prop) (n c p : Nat) : Prop :=
  IsLeast {q | c < q ∧ E q} p ∨ (∀ q, c < q → ¬ E q) ∧ p = n

/-- The greatest position below `c` with the property, or `0` if there is none. -/
def NearestBelow (E : Nat → Prop) (c p : Nat) : Prop :=
  IsGreatest {q | q < c ∧ E q} p ∨ (∀ q, q < c → ¬ E q) ∧ p = 0

variable {E : Nat → Prop} {n c p : Nat}

namespace NearestAbove

theorem self (h : ∀ q, n < q → ¬ E q) : NearestAbove E n n n := .inr ⟨h, rfl⟩

/-- The search ends with its first step. -/
theorem succ (h : E (c + 1)) : NearestAbove E n c (c + 1) :=
  .inl ⟨⟨Nat.lt_succ_self c, h⟩, fun _ hq => hq.1⟩

/-- The search goes on. -/
theorem of_succ (hn : ¬ E (c + 1)) (h : NearestAbove E n (c + 1) p) :
    NearestAbove E n c p := by
  have hskip : ∀ q, c < q → E q → c + 1 < q := fun q hq hE =>
    Nat.lt_of_le_of_ne hq fun heq => hn (heq ▸ hE)
  rcases h with ⟨⟨hlt, hE⟩, hleast⟩ | ⟨hnone, rfl⟩
  · exact .inl ⟨⟨Nat.lt_of_succ_lt hlt, hE⟩, fun q hq => hleast ⟨hskip q hq.1 hq.2, hq.2⟩⟩
  · exact .inr ⟨fun q hq hE => hnone q (hskip q hq hE) hE, rfl⟩

theorem lt (h : NearestAbove E n c p) (hc : c < n) : c < p := by
  rcases h with ⟨⟨hlt, -⟩, -⟩ | ⟨-, rfl⟩
  · exact hlt
  · exact hc

end NearestAbove

namespace NearestBelow

theorem zero : NearestBelow E 0 0 := .inr ⟨fun _ hq => absurd hq (Nat.not_lt_zero _), rfl⟩

theorem pred (h : E c) : NearestBelow E (c + 1) c :=
  .inl ⟨⟨Nat.lt_succ_self c, h⟩, fun _ hq => Nat.le_of_lt_succ hq.1⟩

theorem of_pred (hn : ¬ E c) (h : NearestBelow E c p) : NearestBelow E (c + 1) p := by
  have hskip : ∀ q, q < c + 1 → E q → q < c := fun q hq hE =>
    Nat.lt_of_le_of_ne (Nat.le_of_lt_succ hq) fun heq => hn (heq ▸ hE)
  rcases h with ⟨⟨hlt, hE⟩, hgreatest⟩ | ⟨hnone, rfl⟩
  · exact .inl ⟨⟨Nat.lt_succ_of_lt hlt, hE⟩, fun q hq => hgreatest ⟨hskip q hq.1 hq.2, hq.2⟩⟩
  · exact .inr ⟨fun q hq hE => hnone q (hskip q hq hE) hE, rfl⟩

theorem lt (h : NearestBelow E c p) (hc : 0 < c) : p < c := by
  rcases h with ⟨⟨hlt, -⟩, -⟩ | ⟨-, rfl⟩
  · exact hlt
  · exact hc

end NearestBelow

/-! ## Uniqueness and the search -/

/-- There is one nearest position. -/
theorem NearestAbove.unique {q : Nat} (h : NearestAbove E n c p) (h' : NearestAbove E n c q) :
    p = q := by
  rcases h with h | ⟨hnone, rfl⟩
  · rcases h' with h' | ⟨hnone', -⟩
    · exact h.unique h'
    · exact absurd h.1.2 (hnone' p h.1.1)
  · rcases h' with h' | ⟨-, rfl⟩
    · exact absurd h'.1.2 (hnone q h'.1.1)
    · rfl

theorem NearestBelow.unique {q : Nat} (h : NearestBelow E c p) (h' : NearestBelow E c q) :
    p = q := by
  rcases h with h | ⟨hnone, rfl⟩
  · rcases h' with h' | ⟨hnone', -⟩
    · exact h.unique h'
    · exact absurd h.1.2 (hnone' p h.1.1)
  · rcases h' with h' | ⟨-, rfl⟩
    · exact absurd h'.1.2 (hnone q h'.1.1)
    · rfl

section Search

variable (E : Nat → Prop) [DecidablePred E]

/-- The search upwards, at most `k` steps. -/
def searchAbove : Nat → Nat → Nat
  | 0, c => c
  | k + 1, c => if E (c + 1) then c + 1 else searchAbove k (c + 1)

/-- The search downwards. -/
def searchBelow : Nat → Nat
  | 0 => 0
  | c + 1 => if E c then c else searchBelow c

variable {E}

theorem searchAbove_nearest (k : Nat) (hE : ∀ q, E q → q ≤ c + k) :
    NearestAbove E (c + k) c (searchAbove E k c) := by
  induction k generalizing c with
  | zero => exact .self fun q hq h => Nat.not_le.mpr hq (hE q h)
  | succ k ih =>
    rw [searchAbove]
    split
    · next h => exact .succ h
    · next h =>
      have hsum : c + 1 + k = c + (k + 1) := Nat.succ_add_eq_add_succ c k
      rw [← hsum]
      exact .of_succ h (ih fun q hq => hsum ▸ hE q hq)

theorem searchBelow_nearest : NearestBelow E c (searchBelow E c) := by
  induction c with
  | zero => exact .zero
  | succ c ih =>
    rw [searchBelow]
    split
    · next h => exact .pred h
    · next h => exact .of_pred h ih

end Search
