import Mathlib.Logic.Function.Iterate
import ProcessingCommon.ListIdxCursor

/-!
# Scrolling margins

With the bounds that `winSet` computes, a scrolled view keeps its cursor at or behind the lower
bound and a view that does not show the end keeps it at or before the upper bound. A window of at
least three lines therefore never shows the cursor on its first line while there is something
before it, nor on its last line while there is something behind it.
-/

namespace ProcessingCommon
namespace ListIdx

variable {x y : ListIdx}

/-- The bounds that `winSet` computes for a window of at least three lines. -/
structure DefaultBounds (x : ListIdx) : Prop where
  three_le : 3 ≤ x.mWin.toNat
  win_lt : x.mWin.toNat < 2 ^ 16
  lbound : x.mCursorLbound.toNat = (x.mWin.toNat - 1) / 2
  ubound : x.mCursorUbound.toNat = x.mWin.toNat / 2

theorem DefaultBounds.of_same (h : x.DefaultBounds) (hw : y.mWin = x.mWin)
    (hl : y.mCursorLbound = x.mCursorLbound) (hu : y.mCursorUbound = x.mCursorUbound) :
    y.DefaultBounds where
  three_le := hw ▸ h.three_le
  win_lt := hw ▸ h.win_lt
  lbound := by rw [hl, hw]; exact h.lbound
  ubound := by rw [hu, hw]; exact h.ubound

theorem DefaultBounds.same (h : x.DefaultBounds) (hs : SameList x y) : y.DefaultBounds :=
  h.of_same hs.win hs.lbound hs.ubound

theorem boundCut_of_lt {bnd : UInt32} (h : bnd.toNat < x.mWin.toNat) : x.boundCut bnd = bnd :=
  if_pos (UInt32.lt_iff_toNat_lt.mpr h)

theorem winSet_defaultBounds (x : ListIdx) {win : UInt32} (h3 : 3 ≤ win.toNat)
    (hlt : win.toNat < 2 ^ 16) : (x.winSet win).DefaultBounds := by
  have hw : (sanityCheck { x with mWin := win }).mWin = win := (sanityCheck_same _).win
  have hhalf : (win >>> 1).toNat = win.toNat / 2 := by
    rw [UInt32.toNat_shiftRight]
    rfl
  have heven : win &&& 1 = 0 ↔ win.toNat % 2 = 0 := by
    rw [toNat_eq_zero, UInt32.toNat_and]
    exact Iff.of_eq (congrArg (· = 0) (Nat.and_one_is_mod _))
  have hlow : (if win &&& 1 = 0 then (win >>> 1) - 1 else win >>> 1).toNat =
      (win.toNat - 1) / 2 := by
    split
    · next h =>
      rw [heven] at h
      rw [UInt32.toNat_sub, hhalf, UInt32.toNat_one]
      omega
    · next h =>
      rw [heven] at h
      rw [hhalf]
      omega
  refine ⟨?_, ?_, ?_, ?_⟩
  · rw [winSet_mWin]
    exact h3
  · rw [winSet_mWin]
    exact hlt
  · rw [winSet_mWin, ← hlow]
    show (boundCut _ _).toNat = _
    rw [hw, boundCut_of_lt (by rw [hw, hlow]; omega)]
  · rw [winSet_mWin, ← hhalf]
    show (boundCut (cursorLboundSet _ _) _).toNat = _
    rw [hw, boundCut_of_lt]
    show (win >>> 1).toNat < (sanityCheck { x with mWin := win }).mWin.toNat
    rw [hw, hhalf]
    omega

/-- The cursor keeps the margins. -/
structure InMargins (x : ListIdx) : Prop where
  inv : x.RepInv
  bounds : x.DefaultBounds
  lower : x.mOffset.toNat ≠ 0 → x.mCursorLbound.toNat ≤ x.mCursor.toNat
  upper : x.mOffset.toNat + x.mWin.toNat < x.mSize.toNat → x.mCursor.toNat ≤ x.mCursorUbound.toNat

/-- No overflow mark stands where the cursor is. -/
theorem InMargins.visible (h : x.InMargins) : ¬ (x.mCursor.toNat = 0 ∧ x.mOffset.toNat ≠ 0) ∧
    ¬ (x.mCursor.toNat = x.mWin.toNat - 1 ∧ x.endReached = false) := by
  obtain ⟨h3, -, hl, hu⟩ := h.bounds
  refine ⟨?_, ?_⟩
  · rintro ⟨hc, ho⟩
    have := h.lower ho
    omega
  · rintro ⟨hc, he⟩
    rw [← Bool.not_eq_true, h.inv.endReached_iff, Nat.not_le] at he
    have := h.upper he
    omega

/-! ## Moves -/

theorem reset_inMargins (hi : x.RepInv) (hb : x.DefaultBounds) : x.reset.1.InMargins where
  inv := reset_repInv hi
  bounds := hb.same (reset_same x)
  lower ho := absurd rfl ho
  upper _ := Nat.zero_le _

theorem cursorEndSet_inMargins (hi : x.RepInv) (hb : x.DefaultBounds) :
    x.cursorEndSet.1.InMargins := by
  obtain ⟨c, hc, hr⟩ := hi.refines (Nat.lt_of_lt_of_le (Nat.zero_lt_succ 2) hb.three_le)
  have hinv := cursorEndSet_repInv hi
  have hb' := hb.same (cursorEndSet_same x)
  have hrange := hr.bounds
  revert hinv hb'
  unfold cursorEndSet
  split
  · next h0 =>
    intro hinv hb'
    rw [hr.empty_iff] at h0
    refine ⟨hinv, hb', ?_, ?_⟩
    · dsimp only
      omega
    · dsimp only
      omega
  · next h0 =>
    intro hinv hb'
    rw [hr.empty_iff] at h0
    have hh := hr.hardUbound h0
    have hl := hb.lbound
    have h3 := hb.three_le
    have hoff : (if x.mSize > x.mWin then x.mSize - x.mWin else 0).toNat =
        x.mSize.toNat - x.mWin.toNat := by
      simp only [gt_iff_lt, UInt32.lt_iff_toNat_lt]
      split
      · rw [UInt32.toNat_sub]
        omega
      · rw [UInt32.toNat_zero]
        omega
    refine ⟨hinv, hb', ?_, ?_⟩
    · dsimp only
      rw [hoff, hh]
      omega
    · dsimp only
      rw [hoff]
      omega

/-- One line beyond the upper bound is taken back by the next move forward. -/
theorem inc_inMargins (hi : x.RepInv) (hb : x.DefaultBounds)
    (hl : x.mOffset.toNat ≠ 0 → x.mCursorLbound.toNat ≤ x.mCursor.toNat)
    (hu : x.mOffset.toNat + x.mWin.toNat + 1 < x.mSize.toNat →
      x.mCursor.toNat ≤ x.mCursorUbound.toNat) : x.inc.1.InMargins := by
  obtain ⟨c, hc, hr⟩ := hi.refines (Nat.lt_of_lt_of_le (Nat.zero_lt_succ 2) hb.three_le)
  have hinv := inc_repInv hi
  have hb' := hb.same (inc_same x)
  have hrange := hr.bounds
  have hend := hi.endReached_iff
  obtain ⟨h3, -, hlb, hub⟩ := hb
  revert hinv hb'
  unfold inc
  split_ifs with h0 h1 h2 <;> intro hinv hb'
  · rw [hr.empty_iff] at h0
    refine ⟨hinv, hb', hl, ?_⟩
    dsimp only
    omega
  · rw [Bool.not_eq_true', ← Bool.not_eq_true, hend, ge_iff_le, UInt32.le_iff_toNat_le] at h1
    refine ⟨hinv, hb', ?_, ?_⟩
    · dsimp only
      omega
    · dsimp only
      rw [UInt32.toNat_add, UInt32.toNat_one]
      omega
  · rw [Bool.not_eq_true', ← Bool.not_eq_true, hend, ge_iff_le, UInt32.le_iff_toNat_le] at h1
    rw [hr.empty_iff] at h0
    rw [UInt32.lt_iff_toNat_lt, hr.hardUbound h0] at h2
    refine ⟨hinv, hb', ?_, ?_⟩
    · dsimp only
      rw [UInt32.toNat_add, UInt32.toNat_one]
      omega
    · dsimp only
      rw [UInt32.toNat_add, UInt32.toNat_one]
      omega
  · rw [Bool.not_eq_true', ← Bool.not_eq_true, hend, ge_iff_le, UInt32.le_iff_toNat_le] at h1
    refine ⟨hinv, hb', hl, ?_⟩
    dsimp only
    omega

theorem InMargins.inc (h : x.InMargins) : x.inc.1.InMargins :=
  inc_inMargins h.inv h.bounds h.lower fun hu => h.upper (by omega)

theorem InMargins.dec (h : x.InMargins) : x.dec.1.InMargins := by
  have hinv := dec_repInv h.inv
  have hb' := h.bounds.same (dec_same x)
  have hl := h.lower
  have hu := h.upper
  have hrange := x.mOffset.toNat_lt
  obtain ⟨h3, -, hlb, hub⟩ := h.bounds
  revert hinv hb'
  unfold ListIdx.dec
  split_ifs with h1 h2 <;> intro hinv hb'
  · rw [ne_eq, toNat_eq_zero, UInt32.le_iff_toNat_le] at h1
    refine ⟨hinv, hb', ?_, ?_⟩
    · dsimp only
      omega
    · dsimp only
      omega
  · rw [ne_eq, toNat_eq_zero, UInt32.le_iff_toNat_le] at h1
    rw [ne_eq, toNat_eq_zero] at h2
    have := x.mCursor.toNat_lt
    refine ⟨hinv, hb', ?_, ?_⟩
    · dsimp only
      rw [UInt32.toNat_sub, UInt32.toNat_one]
      omega
    · dsimp only
      rw [UInt32.toNat_sub, UInt32.toNat_one]
      omega
  · exact ⟨hinv, hb', hl, hu⟩

theorem InMargins.jumpLoop {move : ListIdx → ListIdx × Bool}
    (hm : ∀ {x : ListIdx}, x.InMargins → (move x).1.InMargins) (h : x.InMargins) (n : Nat)
    (changed : Bool) : (ListIdx.jumpLoop move n (x, changed)).1.InMargins := by
  induction n generalizing x changed with
  | zero => exact h
  | succ n ih => exact ih (hm h) _

theorem InMargins.iterate_inc (h : x.InMargins) (n : Nat) :
    ((fun x => x.inc.1)^[n] x).InMargins := by
  induction n generalizing x with
  | zero => exact h
  | succ n ih => exact ih h.inc

theorem InMargins.reset (h : x.InMargins) : x.reset.1.InMargins := reset_inMargins h.inv h.bounds

theorem InMargins.cursorEndSet (h : x.InMargins) : x.cursorEndSet.1.InMargins :=
  cursorEndSet_inMargins h.inv h.bounds

theorem InMargins.keyProcess (h : x.InMargins) (key : KeyUser) (dis : List Char32) :
    (x.keyProcess key dis).1.InMargins :=
  keyProcess_cases (P := fun r => r.1.InMargins) h.inc h.dec (h.jumpLoop .inc _ _)
    (h.jumpLoop .dec _ _) h.reset h.cursorEndSet h key dis

/-! ## Change items -/

/-- What a resize makes of the two margins; the upper one may be missed by `k` lines. -/
theorem sizeSet_margins (hi : x.RepInv) (hb : x.DefaultBounds) (size : UInt32) (k : Nat)
    (hov : x.mSize.toNat + x.mWin.toNat ≤ 2 ^ 32 + size.toNat)
    (hl : x.mOffset.toNat ≠ 0 → x.mCursorLbound.toNat ≤ x.mCursor.toNat)
    (hu : x.mOffset.toNat + x.mWin.toNat + k < size.toNat →
      x.mCursor.toNat ≤ x.mCursorUbound.toNat) :
    ((x.sizeSet size).mOffset.toNat ≠ 0 →
      (x.sizeSet size).mCursorLbound.toNat ≤ (x.sizeSet size).mCursor.toNat) ∧
    ((x.sizeSet size).mOffset.toNat + (x.sizeSet size).mWin.toNat + k <
        (x.sizeSet size).mSize.toNat →
      (x.sizeSet size).mCursor.toNat ≤ (x.sizeSet size).mCursorUbound.toNat) := by
  obtain ⟨c, hc, hr⟩ := hi.refines (Nat.lt_of_lt_of_le (Nat.zero_lt_succ 2) hb.three_le)
  have hs := sizeSet_same x size
  have hrange := hr.bounds
  obtain ⟨h3, hw, hlb, hub⟩ := hb
  rw [show (x.sizeSet size).mCursorLbound = x.mCursorLbound from hs.lbound,
    show (x.sizeSet size).mCursorUbound = x.mCursorUbound from hs.ubound, sizeSet_mWin,
    sizeSet_mSize]
  rcases sizeSet_offset_cursor hr (hc ▸ hov) with ⟨ho, ho', hc'⟩ | ⟨ho, ho', hc'⟩
  · rw [ho', hc']
    omega
  · rw [ho', hc']
    omega

theorem sizeSet_inMargins (hi : x.RepInv) (hb : x.DefaultBounds) {size : UInt32}
    (hov : x.mSize.toNat + x.mWin.toNat ≤ 2 ^ 32 + size.toNat)
    (hl : x.mOffset.toNat ≠ 0 → x.mCursorLbound.toNat ≤ x.mCursor.toNat)
    (hu : x.mOffset.toNat + x.mWin.toNat < size.toNat →
      x.mCursor.toNat ≤ x.mCursorUbound.toNat) : (x.sizeSet size).InMargins := by
  have hs := sizeSet_same x size
  obtain ⟨hl', hu'⟩ := sizeSet_margins hi hb size 0 hov hl hu
  exact ⟨sizeSet_repInv hi size, hb.of_same hs.win hs.lbound hs.ubound, hl', hu'⟩

/-- A list that gets shorter is shown as far as it goes. -/
theorem InMargins.sizeSet (h : x.InMargins) {size : UInt32} (hle : size.toNat ≤ x.mSize.toNat)
    (hlt : x.mSize.toNat < 2 ^ 31) : (x.sizeSet size).InMargins := by
  have hw := h.bounds.win_lt
  exact sizeSet_inMargins h.inv h.bounds (by omega) h.lower fun hu => h.upper (by omega)

/-- The item that comes in may push the cursor over the upper bound until the move. -/
theorem InMargins.insert (h : x.InMargins) (hlt : x.mSize.toNat < 2 ^ 31) : x.insert.InMargins := by
  have hs := sizeSet_same x (x.mSize + 1)
  have hw := h.bounds.win_lt
  have hsize : (x.mSize + 1).toNat = x.mSize.toNat + 1 := by
    rw [UInt32.toNat_add, UInt32.toNat_one]
    omega
  obtain ⟨hl', hu'⟩ := sizeSet_margins h.inv h.bounds (x.mSize + 1) 1 (by omega) h.lower
    fun hu => h.upper (by omega)
  exact inc_inMargins (sizeSet_repInv h.inv _) (h.bounds.of_same hs.win hs.lbound hs.ubound) hl' hu'

theorem InMargins.iterate_insert (h : x.InMargins) {n : Nat} (hlt : x.mSize.toNat + n < 2 ^ 31) :
    (ListIdx.insert^[n] x).InMargins := by
  induction n generalizing x with
  | zero => exact h
  | succ n ih =>
    refine ih (h.insert (by omega)) ?_
    rw [(insert_frame x).2, UInt32.toNat_add, UInt32.toNat_one]
    omega

/-- The view of a scrolled list at its end goes back by one line. -/
theorem InMargins.decOffset (h : x.InMargins) (ho : x.mOffset.toNat ≠ 0) :
    x.decOffset.1.RepInv ∧ x.decOffset.1.DefaultBounds ∧
      x.decOffset.1.mOffset.toNat = x.mOffset.toNat - 1 ∧ x.decOffset.1.mCursor = x.mCursor := by
  refine ⟨decOffset_repInv h.inv, h.bounds.same (decOffset_same x), ?_⟩
  rw [ListIdx.decOffset, if_neg (fun h0 => ho (toNat_eq_zero.mp h0))]
  have := x.mOffset.toNat_lt
  refine ⟨?_, rfl⟩
  dsimp only
  rw [UInt32.toNat_sub, UInt32.toNat_one]
  omega

theorem InMargins.prevErase (h : x.InMargins) (hlt : x.mSize.toNat < 2 ^ 31) :
    x.prevErase.1.InMargins := by
  obtain ⟨c, hc, hr⟩ := h.inv.refines (Nat.lt_of_lt_of_le (Nat.zero_lt_succ 2) h.bounds.three_le)
  have hrange := hr.bounds
  have hw := h.bounds.win_lt
  unfold ListIdx.prevErase
  split
  · exact h
  · next h0 =>
    have hpos : 0 < x.mSize.toNat := by
      rw [toNat_eq_zero, h.inv.cursorAbs_toNat] at h0
      omega
    have hsize : (x.mSize - 1).toNat = x.mSize.toNat - 1 := by
      rw [UInt32.toNat_sub, UInt32.toNat_one]
      omega
    dsimp only
    split
    · next hend =>
      rw [hr.scrolledEnd_iff] at hend
      obtain ⟨hi, hb, ho, hcur⟩ := h.decOffset hend.1
      have hs := decOffset_same x
      have hl := h.lower hend.1
      rw [hs.size]
      refine sizeSet_inMargins hi hb ?_ ?_ ?_
      · rw [hs.size, hs.win]
        omega
      · rw [hs.lbound, hcur]
        exact fun _ => hl
      · rw [hs.win, ho, hsize]
        omega
    · have hs := dec_same x
      rw [hs.size]
      refine h.dec.sizeSet ?_ (by rw [hs.size]; exact hlt)
      rw [hs.size, hsize]
      omega

theorem incCursor_le (hlt : x.mCursor.toNat + 1 < 2 ^ 32) :
    x.incCursor.1.mOffset = x.mOffset ∧ x.mCursor.toNat ≤ x.incCursor.1.mCursor.toNat := by
  unfold incCursor
  split_ifs
  · exact ⟨rfl, Nat.le_refl _⟩
  · exact ⟨rfl, Nat.le_refl _⟩
  · refine ⟨rfl, ?_⟩
    dsimp only
    rw [UInt32.toNat_add, UInt32.toNat_one]
    omega

/-- The cursor follows its item when the view goes back. -/
theorem InMargins.currErase (h : x.InMargins) (hlt : x.mSize.toNat < 2 ^ 31) :
    x.currErase.1.InMargins := by
  obtain ⟨c, hc, hr⟩ := h.inv.refines (Nat.lt_of_lt_of_le (Nat.zero_lt_succ 2) h.bounds.three_le)
  have hrange := hr.bounds
  have hw := h.bounds.win_lt
  unfold ListIdx.currErase
  split
  · exact h
  · next h0 =>
    rw [toNat_eq_zero] at h0
    have hsize : (x.mSize - 1).toNat = x.mSize.toNat - 1 := by
      rw [UInt32.toNat_sub, UInt32.toNat_one]
      omega
    dsimp only
    split
    · next hend =>
      rw [hr.scrolledEnd_iff] at hend
      obtain ⟨hi, hb, ho, hcur⟩ := h.decOffset hend.1
      have hs := (decOffset_same x).trans (incCursor_same _)
      have hl := h.lower hend.1
      obtain ⟨ho', hcur'⟩ := incCursor_le (x := x.decOffset.1) (by rw [hcur]; omega)
      rw [hs.size]
      refine sizeSet_inMargins (incCursor_repInv hi) (hb.same (incCursor_same _)) ?_ ?_ ?_
      · rw [hs.size, hs.win]
        omega
      · rw [hs.lbound]
        rw [hcur] at hcur'
        omega
      · rw [hs.win, ho', ho, hsize]
        omega
    · refine h.sizeSet ?_ hlt
      rw [hsize]
      omega

end ListIdx
end ProcessingCommon
