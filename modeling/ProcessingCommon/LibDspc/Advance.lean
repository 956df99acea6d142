import Mathlib.Algebra.Order.Group.Unbundled.Int
import Mathlib.Tactic.Common

/-!
# `advance2` (`LibDspc.h`)

An iterator is its position in the sequence. Both overloads move it by `n` steps and are to stop
at `end`. The one for random access compares a negative `n` with the wrong side of the distance:
it jumps to `end` where `n` is shorter than the distance, and takes all steps where it is longer.
-/

namespace ProcessingCommon
namespace LibDspc

/-! ## Bidirectional iterators -/

/-- `while (n-- && it != end) ++it, ++stepsMoved;` -/
def stepsForward (endIt : Int) : Nat → Int → Int → Int × Int
  | 0, it, stepsMoved => (it, stepsMoved)
  | n + 1, it, stepsMoved =>
    if it ≠ endIt then stepsForward endIt n (it + 1) (stepsMoved + 1) else (it, stepsMoved)

/-- `while (n++ && it != end) --it, --stepsMoved;` where the number is that of the steps left. -/
def stepsBackward (endIt : Int) : Nat → Int → Int → Int × Int
  | 0, it, stepsMoved => (it, stepsMoved)
  | n + 1, it, stepsMoved =>
    if it ≠ endIt then stepsBackward endIt n (it - 1) (stepsMoved - 1) else (it, stepsMoved)

/-- The iterator after the call, and the returned number of steps. -/
def advance2Bidirectional (it endIt n : Int) : Int × Int :=
  if n = 0 ∨ it = endIt then (it, 0)
  else if n > 0 then stepsForward endIt n.toNat it 0
  else stepsBackward endIt (-n).toNat it 0

/-! ## Random access iterators -/

def advance2RandomAccess (it endIt n : Int) : Int × Int :=
  if n = 0 ∨ it = endIt then (it, 0)
  else
    let stepsMax := if n > 0 then endIt - it else it - endIt
    if n > 0 ∧ n > stepsMax then (endIt, stepsMax)
    else if n > 0 ∧ n ≤ stepsMax then (it + n, n)
    else if n < 0 ∧ n > -stepsMax then (endIt, -stepsMax)
    else if n < 0 ∧ n ≤ -stepsMax then (it + n, n)
    else (it, 0)

/-! ## What both are for -/

/-- `n` steps, or those up to `end` if these are fewer. -/
def stepsTo (it endIt n : Int) : Int := n.sign * min |n| |endIt - it|

/-- `end` is not on the other side. -/
def Ahead (it endIt n : Int) : Prop := (n > 0 → it ≤ endIt) ∧ (n < 0 → endIt ≤ it)

/-- The steps are made and returned, and the iterator does not go beyond `end`. -/
def Moves (advance : Int → Int → Int → Int × Int) (it endIt n : Int) : Prop :=
  advance it endIt n = (it + stepsTo it endIt n, stepsTo it endIt n) ∧
    Ahead (advance it endIt n).1 endIt n

variable {it endIt n : Int}

theorem stepsTo_zero (it endIt : Int) : stepsTo it endIt 0 = 0 := by
  rw [stepsTo, Int.sign_zero, Int.zero_mul]

theorem stepsTo_self (it n : Int) : stepsTo it it n = 0 := by
  rw [stepsTo, Int.sub_self, abs_zero, min_eq_right (abs_nonneg n), Int.mul_zero]

theorem stepsTo_pos (hn : 0 < n) (h : it ≤ endIt) : stepsTo it endIt n = min n (endIt - it) := by
  rw [stepsTo, Int.sign_eq_one_of_pos hn, Int.one_mul, abs_of_pos hn,
    abs_of_nonneg (Int.sub_nonneg_of_le h)]

theorem stepsTo_neg (hn : n < 0) (h : endIt ≤ it) :
    stepsTo it endIt n = -min (-n) (it - endIt) := by
  rw [stepsTo, Int.sign_eq_neg_one_of_neg hn, Int.neg_one_mul, abs_of_neg hn,
    abs_of_nonpos (Int.sub_nonpos_of_le h), Int.neg_sub]

/-- The steps do not go beyond `end`. -/
theorem ahead_stepsTo (h : Ahead it endIt n) : Ahead (it + stepsTo it endIt n) endIt n := by
  constructor
  · intro hn
    rw [stepsTo_pos hn (h.1 hn)]
    omega
  · intro hn
    rw [stepsTo_neg hn (h.2 hn)]
    omega

/-- A result that counts its steps is right if the count is. -/
theorem moves_iff {advance : Int → Int → Int → Int × Int} {moved : Int} (h : Ahead it endIt n)
    (hadvance : advance it endIt n = (it + moved, moved)) :
    Moves advance it endIt n ↔ moved = stepsTo it endIt n := by
  unfold Moves
  rw [hadvance]
  constructor
  · rintro ⟨hmoved, -⟩
    exact (Prod.mk.injEq _ _ _ _ ▸ hmoved).2
  · rintro rfl
    exact ⟨rfl, ahead_stepsTo h⟩

theorem stepsForward_eq (k : Nat) : ∀ {it : Int} (moved : Int), it ≤ endIt →
    stepsForward endIt k it moved =
      (it + min (k : Int) (endIt - it), moved + min (k : Int) (endIt - it)) := by
  induction k with
  | zero =>
    intro it moved h
    rw [stepsForward, Prod.mk.injEq]
    omega
  | succ k ih =>
    intro it moved h
    rw [stepsForward]
    split
    · next hne =>
      rw [ih (moved + 1) (by omega), Prod.mk.injEq]
      omega
    · next heq =>
      rw [Prod.mk.injEq]
      omega

theorem stepsBackward_eq (k : Nat) : ∀ {it : Int} (moved : Int), endIt ≤ it →
    stepsBackward endIt k it moved =
      (it - min (k : Int) (it - endIt), moved - min (k : Int) (it - endIt)) := by
  induction k with
  | zero =>
    intro it moved h
    rw [stepsBackward, Prod.mk.injEq]
    omega
  | succ k ih =>
    intro it moved h
    rw [stepsBackward]
    split
    · next hne =>
      rw [ih (moved - 1) (by omega), Prod.mk.injEq]
      omega
    · next heq =>
      rw [Prod.mk.injEq]
      omega

/-- The loop over single steps is right for every number of them. -/
theorem moves_bidirectional (h : Ahead it endIt n) : Moves advance2Bidirectional it endIt n := by
  have hadvance : advance2Bidirectional it endIt n =
      (it + stepsTo it endIt n, stepsTo it endIt n) := by
    unfold advance2Bidirectional
    split
    · next h0 =>
      have hzero : stepsTo it endIt n = 0 := by
        rcases h0 with rfl | rfl
        · exact stepsTo_zero it endIt
        · exact stepsTo_self it n
      rw [hzero, Int.add_zero]
    · next h0 =>
      split
      · next hpos =>
        rw [stepsForward_eq _ 0 (h.1 hpos), stepsTo_pos hpos (h.1 hpos), Int.zero_add,
          Int.toNat_of_nonneg (by omega)]
      · next hpos =>
        have hneg : n < 0 := by omega
        rw [stepsBackward_eq _ 0 (h.2 hneg), stepsTo_neg hneg (h.2 hneg), Int.zero_sub,
          Int.toNat_of_nonneg (by omega), Int.sub_eq_add_neg]
  exact (moves_iff h hadvance).mpr rfl

/-- The steps that the overload for random access makes backwards: the longer way of the two. -/
theorem advance2RandomAccess_neg (hn : n < 0) (hne : it ≠ endIt) :
    advance2RandomAccess it endIt n = (it + min n (endIt - it), min n (endIt - it)) := by
  unfold advance2RandomAccess
  have hpos : ¬ n > 0 := by omega
  rw [if_neg (by omega), if_neg hpos]
  dsimp only
  rw [if_neg fun hc => hpos hc.1, if_neg fun hc => hpos hc.1]
  split
  · rw [Prod.mk.injEq]
    omega
  · rw [if_pos (by omega), Prod.mk.injEq]
    omega

theorem advance2RandomAccess_pos (hn : 0 < n) (hne : it ≠ endIt) :
    advance2RandomAccess it endIt n = (it + min n (endIt - it), min n (endIt - it)) := by
  unfold advance2RandomAccess
  rw [if_neg (by omega), if_pos hn]
  dsimp only
  split
  · rw [Prod.mk.injEq]
    omega
  · rw [if_pos (by omega), Prod.mk.injEq]
    omega

/-- Random access is right forwards, and backwards only where `n` is the distance itself. -/
theorem moves_randomAccess_iff (h : Ahead it endIt n) :
    Moves advance2RandomAccess it endIt n ↔ 0 ≤ n ∨ it = endIt ∨ n = endIt - it := by
  by_cases h0 : n = 0 ∨ it = endIt
  · have hadvance : advance2RandomAccess it endIt n = (it + 0, 0) := by
      unfold advance2RandomAccess
      rw [if_pos h0, Int.add_zero]
    rw [moves_iff h hadvance]
    rcases h0 with rfl | rfl
    · exact ⟨fun _ => .inl (Int.le_refl 0), fun _ => (stepsTo_zero it endIt).symm⟩
    · exact ⟨fun _ => .inr (.inl rfl), fun _ => (stepsTo_self it n).symm⟩
  · rw [not_or] at h0
    rcases Int.lt_or_gt_of_ne h0.1 with hneg | hpos
    · have hle := h.2 hneg
      rw [moves_iff h (advance2RandomAccess_neg hneg h0.2), stepsTo_neg hneg hle]
      omega
    · have hle := h.1 hpos
      rw [moves_iff h (advance2RandomAccess_pos hpos h0.2), stepsTo_pos hpos hle]
      exact ⟨fun _ => .inl (Int.le_of_lt hpos), fun _ => rfl⟩

/-- Both overloads are the same function exactly where random access does not go backwards by
another number of steps than the distance. -/
theorem advance2_moves_iff (h : Ahead it endIt n) :
    Moves advance2Bidirectional it endIt n ∧ Moves advance2RandomAccess it endIt n ↔
      0 ≤ n ∨ it = endIt ∨ n = endIt - it := by
  rw [moves_randomAccess_iff h]
  exact and_iff_right (moves_bidirectional h)

/-- Two steps back to the begin of the sequence. -/
theorem advance2_moves_back :
    Moves advance2Bidirectional 2 0 (-2) ∧ Moves advance2RandomAccess 2 0 (-2) :=
  (advance2_moves_iff ⟨by decide, by decide⟩).mpr (.inr (.inr rfl))

/-- One step back is two, and three steps back go in front of the sequence. -/
theorem advance2_not_moves :
    ¬ (∀ it endIt n : Int, 0 ≤ it → 0 ≤ endIt → Ahead it endIt n →
      Moves advance2Bidirectional it endIt n ∧ Moves advance2RandomAccess it endIt n) ∧
    advance2RandomAccess 2 0 (-1) = (0, -2) ∧ advance2RandomAccess 2 0 (-3) = (-1, -3) := by
  refine ⟨fun hall => ?_, by decide, by decide⟩
  have h := (hall 2 0 (-1) (by decide) (by decide) ⟨by decide, by decide⟩).2.1
  exact absurd h (by decide)

end LibDspc
end ProcessingCommon
