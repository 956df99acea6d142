import Mathlib.Algebra.BigOperators.Fin
import Mathlib.Algebra.Order.Group.Multiset

/-!
# Shares of a log

A log of items, each with the number of the place it belongs to. The shares of the places make
up the log.
-/

namespace Share

universe u

variable {α : Type u} {l l' : List (α × Nat)} {k n : Nat}

/-- The items of place `k`. -/
def share (k : Nat) (l : List (α × Nat)) : List α :=
  (l.filter fun p => p.2 = k).map Prod.fst

@[simp] theorem share_nil : share k ([] : List (α × Nat)) = [] := rfl

@[simp] theorem share_append : share k (l ++ l') = share k l ++ share k l' := by
  simp [share]

/-- Items that all belong to one place. -/
@[simp] theorem share_self {as : List α} : share k (as.map fun a => (a, k)) = as := by
  induction as with
  | nil => rfl
  | cons a as ih => simpa [share] using ih

theorem share_of_ne {as : List α} (h : n ≠ k) : share k (as.map fun a => (a, n)) = [] := by
  simp [share, h]

/-- Every item is in the share of one place. -/
theorem sum_share (h : ∀ p ∈ l, p.2 < n) :
    ∑ k ∈ Finset.range n, (share k l : Multiset α) = (l.map Prod.fst : List α) := by
  induction l with
  | nil => simp
  | cons p l ih =>
    have hhead : ∀ k, (share k [p] : Multiset α) = if p.2 = k then {p.1} else 0 := by
      intro k
      by_cases hk : p.2 = k <;> simp [share, hk]
    have hp : p.2 ∈ Finset.range n := Finset.mem_range.mpr (h p List.mem_cons_self)
    calc ∑ k ∈ Finset.range n, (share k (p :: l) : Multiset α)
        = ∑ k ∈ Finset.range n, ((share k [p] : Multiset α) + (share k l : Multiset α)) := by
          simp only [Multiset.coe_add, ← share_append, List.singleton_append]
      _ = {p.1} + (l.map Prod.fst : List α) := by
          rw [Finset.sum_add_distrib, ih fun q hq => h q (List.mem_cons_of_mem _ hq)]
          simp only [hhead, Finset.sum_ite_eq, hp, if_true]
      _ = ((p :: l).map Prod.fst : List α) := rfl

/-- What holds of each entry of a table, summed over the table. -/
theorem sum_entries {β : Type u} {vec : List β} {f : β → Multiset α} {g h : Nat → Multiset α}
    (hf : ∀ i b, vec[i]? = some b → g i = f b + h i) :
    ∑ i ∈ Finset.range vec.length, g i =
      (vec.map f).sum + ∑ i ∈ Finset.range vec.length, h i := by
  rw [Finset.sum_range, Finset.sum_range, ← Fin.sum_univ_fun_getElem, ← Finset.sum_add_distrib]
  exact Finset.sum_congr rfl fun i _ => hf i vec[i] (List.getElem?_eq_getElem i.isLt)

end Share
