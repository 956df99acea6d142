import Mathlib.Algebra.Ring.Nat
import Mathlib.Tactic.Common

/-!
# Least loads

The search for the least value of a list, which keeps the first one of several, and what becomes
of a level list when that value is raised.
-/

/-- Position `i` holds `a`, no value is less and no value before it is as small. -/
structure FirstMin {α : Type*} [Preorder α] (l : List α) (i : Nat) (a : α) : Prop where
  get : l[i]? = some a
  le : ∀ b ∈ l, a ≤ b
  lt : ∀ b ∈ l.take i, a < b

namespace FirstMin

variable {α : Type*} [Preorder α] {l : List α} {i : Nat} {a b : α}

theorem single (a : α) : FirstMin [a] 0 a where
  get := rfl
  le _ hb := le_of_eq (List.mem_singleton.mp hb).symm
  lt _ hb := absurd hb List.not_mem_nil

theorem index_lt (h : FirstMin l i a) : i < l.length := (List.getElem?_eq_some_iff.mp h.get).1

/-- A value that is not less is passed over. -/
theorem keep (h : FirstMin l i a) (hb : a ≤ b) : FirstMin (l ++ [b]) i a where
  get := (List.getElem?_append_left h.index_lt).trans h.get
  le c hc := by
    rcases List.mem_append.mp hc with hc | hc
    · exact h.le c hc
    · rw [List.mem_singleton.mp hc]
      exact hb
  lt c hc := by
    rw [List.take_append_of_le_length (Nat.le_of_lt h.index_lt)] at hc
    exact h.lt c hc

/-- A value that is less is taken. -/
theorem replace (h : FirstMin l i a) (hb : b < a) : FirstMin (l ++ [b]) l.length b where
  get := List.getElem?_concat_length
  le c hc := by
    rcases List.mem_append.mp hc with hc | hc
    · exact le_of_lt (lt_of_lt_of_le hb (h.le c hc))
    · rw [List.mem_singleton.mp hc]
  lt c hc := by
    rw [List.take_left] at hc
    exact lt_of_lt_of_le hb (h.le c hc)

end FirstMin

/-- Any two values differ by one at most. -/
def Level (l : List Nat) : Prop := ∀ a ∈ l, ∀ b ∈ l, a ≤ b + 1

instance (l : List Nat) : Decidable (Level l) :=
  inferInstanceAs (Decidable (∀ a ∈ l, ∀ b ∈ l, a ≤ b + 1))

/-- To raise a least value keeps the list level. -/
theorem Level.set {l : List Nat} {i a : Nat} (h : Level l) (hget : l[i]? = some a)
    (hle : ∀ b ∈ l, a ≤ b) : Level (l.set i (a + 1)) := by
  have ha : a ∈ l := List.mem_of_getElem? hget
  intro b hb c hc
  rcases List.mem_or_eq_of_mem_set hb with hb | rfl
  · rcases List.mem_or_eq_of_mem_set hc with hc | rfl
    · exact h b hb c hc
    · exact Nat.le_trans (h b hb a ha) (Nat.le_succ _)
  · rcases List.mem_or_eq_of_mem_set hc with hc | rfl
    · exact Nat.succ_le_succ (hle c hc)
    · exact Nat.le_succ _

theorem sum_set_succ {l : List Nat} {i a : Nat} (h : l[i]? = some a) :
    (l.set i (a + 1)).sum = l.sum + 1 := by
  induction l generalizing i with
  | nil => cases h
  | cons b l ih =>
    cases i with
    | zero =>
      cases h
      rw [List.set_cons_zero, List.sum_cons, List.sum_cons, Nat.add_right_comm]
    | succ i => rw [List.set_cons_succ, List.sum_cons, List.sum_cons, ih h, Nat.add_assoc]
