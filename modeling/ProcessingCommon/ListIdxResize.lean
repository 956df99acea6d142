import ProcessingCommon.ListIdxCursor

/-!
# Resizing the list or the window

`sanityCheck` is to keep the cursor on its item where list or window change. It does so
by scrolling the view back and moving the relative cursor by what the view overlaps the list.
Two things go wrong: a view scrolled to offset 0 has gone back by less than that overlap, and
a window that ends before the cursor is not scrolled at all.
-/

namespace ProcessingCommon
namespace ListIdx

variable {x : ListIdx}

instance (x : ListIdx) (size : UInt32) : Decidable (x.Overshoots size) :=
  inferInstanceAs (Decidable (_ ∧ _))

theorem overshoots_iff {size : UInt32} : x.Overshoots size ↔
    x.mOffset.toNat ≠ 0 ∧ size.toNat < x.mWin.toNat ∧ x.cursorAbs.toNat + 1 < size.toNat := by
  rw [Overshoots, ne_eq, toNat_eq_zero]

/-! ## The size -/

/-- Where `sizeSet` leaves the cursor, overshooting or not. -/
theorem sizeSet_cursorAbs (h : x.RepInv) (hw : 0 < x.mWin.toNat) (hs : 0 < x.mSize.toNat)
    {size : UInt32} (hsize : 0 < size.toNat)
    (hov : x.cursorAbs.toNat + x.mWin.toNat < 2 ^ 32 + size.toNat) :
    (x.sizeSet size).cursorAbs.toNat =
      if x.mOffset.toNat ≠ 0 ∧ size.toNat < x.mWin.toNat then
        min (x.cursorAbs.toNat + (x.mWin.toNat - size.toNat)) (size.toNat - 1)
      else min x.cursorAbs.toNat (size.toNat - 1) := by
  have hlt := h.cursorAbs_lt hw hs
  have hcur := h.cursor_lt_max
  have hfit := h.offset_le
  have := x.mWin.toNat_lt
  have := x.mSize.toNat_lt
  rw [toNat_eq_zero] at hfit
  rw [h.cursorAbs_toNat] at hlt hov ⊢
  rw [(sizeSet_repInv h size).cursorAbs_toNat]
  have hoc := sanityCheck_offset_cursor { x with mSize := size } (by dsimp only; omega)
    (by dsimp only; omega)
  rw [sizeSet]
  dsimp only at hoc
  rcases hoc with ⟨ho, ho', hc'⟩ | ⟨ho, ho', hc'⟩
  · rw [ho', hc', if_neg (by omega)]
    omega
  · rw [ho', hc']
    split <;> omega

/-- With a window and a list, `sizeSet` keeps the cursor on its item, or on the last one where
that item is gone, exactly when it does not overshoot. -/
theorem sizeSet_keeps_item (h : x.Reached) (hw : 1 ≤ x.mWin.toNat) (hs : 1 ≤ x.mSize.toNat)
    {n : UInt32} (hn : 1 ≤ n.toNat) (hlt : n.toNat < 2 ^ 30) :
    (x.sizeSet n).cursorAbs.toNat = min x.cursorAbs.toNat (n.toNat - 1) ↔ ¬ x.Overshoots n := by
  have hb := h.boundedInv
  have hin := hb.1.cursorAbs_lt hw hs
  rw [sizeSet_cursorAbs hb.1 hw hs hn (by have := hb.2; omega), overshoots_iff]
  split <;> omega

/-- A list of four items in a window of three, at its end, that loses one. -/
theorem sizeSet_keeps_item_last :
    (((((ofWin 3).apply (.sizeSet 4)).apply .cursorEndSet).sizeSet 3).cursorAbs.toNat =
      min (((ofWin 3).apply (.sizeSet 4)).apply .cursorEndSet).cursorAbs.toNat (3 - 1)) :=
  (sizeSet_keeps_item
    (((Reached.ofWin 3 (by decide)).apply (.sizeSet 4)
      (show (4 : UInt32).toNat < 2 ^ 30 by decide)).apply .cursorEndSet trivial)
    (by decide) (by decide) (by decide) (by decide)).mpr (by decide)

/-- A list of five items in a window of four, scrolled by one line with the cursor on item 1, that
is cut to three items: the cursor goes to item 2. -/
theorem sizeSet_keeps_item_fails : ¬ ∀ x : ListIdx, x.Reached → 1 ≤ x.mWin.toNat →
    1 ≤ x.mSize.toNat → ∀ n : UInt32, 1 ≤ n.toNat → n.toNat < 2 ^ 30 →
    (x.sizeSet n).cursorAbs.toNat = min x.cursorAbs.toNat (n.toNat - 1) := by
  intro h
  have hr := (((Reached.ofWin 4 (by decide)).apply (.sizeSet 5)
    (show (5 : UInt32).toNat < 2 ^ 30 by decide)).apply .incOffset trivial)
  exact absurd (h _ hr (by decide) (by decide) 3 (by decide) (by decide)) (by decide)

/-! ## The window -/

/-- Offset and cursor after a `winSet` whose sums do not wrap. -/
theorem winSet_offset_cursor (h : x.RepInv) (hw : 0 < x.mWin.toNat) (hs : 0 < x.mSize.toNat)
    {win : UInt32} (hov : x.mSize.toNat + win.toNat < 2 ^ 32) :
    (x.mOffset.toNat = 0 ∨ x.mOffset.toNat + win.toNat ≤ x.mSize.toNat) ∧
        (x.winSet win).mOffset = x.mOffset ∧
        (x.winSet win).mCursor.toNat =
          min x.mCursor.toNat (max (min win.toNat x.mSize.toNat) 1 - 1) ∨
      (x.mOffset.toNat ≠ 0 ∧ x.mSize.toNat < x.mOffset.toNat + win.toNat) ∧
        (x.winSet win).mOffset.toNat = x.mSize.toNat - win.toNat ∧
        (x.winSet win).mCursor.toNat =
          min (x.mCursor.toNat + (x.mOffset.toNat + win.toNat - x.mSize.toNat))
            (max (min win.toNat x.mSize.toNat) 1 - 1) := by
  have hlt := h.cursorAbs_lt hw hs
  rw [h.cursorAbs_toNat] at hlt
  refine sanityCheck_offset_cursor { x with mWin := win } ?_ ?_
  · dsimp only
    omega
  · dsimp only
    omega

/-- The new window ends before the line of the cursor. -/
def CutOff (x : ListIdx) (win : UInt32) : Prop := win.toNat ≤ x.mCursor.toNat

/-- A scrolled list fits into the new window with lines to spare, and the cursor is not on its
last item. This is `Overshoots` for the window. -/
def WinOvershoots (x : ListIdx) (win : UInt32) : Prop :=
  x.mOffset ≠ 0 ∧ x.mSize.toNat < win.toNat ∧ x.cursorAbs.toNat + 1 < x.mSize.toNat

instance (x : ListIdx) (win : UInt32) : Decidable (x.CutOff win) :=
  inferInstanceAs (Decidable (_ ≤ _))

instance (x : ListIdx) (win : UInt32) : Decidable (x.WinOvershoots win) :=
  inferInstanceAs (Decidable (_ ∧ _))

/-- Where `winSet` leaves the cursor. A view that is cut off keeps its offset, so the cursor goes
to the new last line. -/
theorem winSet_cursorAbs (h : x.RepInv) (hw : 0 < x.mWin.toNat) (hs : 0 < x.mSize.toNat)
    {win : UInt32} (hwin : 0 < win.toNat) (hov : x.mSize.toNat + win.toNat < 2 ^ 32) :
    (x.winSet win).cursorAbs.toNat =
      if x.mOffset.toNat ≠ 0 ∧ x.mSize.toNat < win.toNat then
        min (x.cursorAbs.toNat + (win.toNat - x.mSize.toNat)) (x.mSize.toNat - 1)
      else min x.cursorAbs.toNat (x.mOffset.toNat + (win.toNat - 1)) := by
  have hlt := h.cursorAbs_lt hw hs
  have hoc := winSet_offset_cursor h hw hs hov
  rw [(winSet_repInv h hov).cursorAbs_toNat]
  rw [h.cursorAbs_toNat] at hlt ⊢
  rcases hoc with ⟨ho, ho', hc'⟩ | ⟨ho, ho', hc'⟩
  · rw [ho', hc', if_neg (by omega)]
    omega
  · rw [ho', hc']
    split <;> omega

/-- With a window and a list, `winSet` keeps the cursor on its item exactly when the new window
neither ends before the line of the cursor nor outgrows a scrolled list. -/
theorem winSet_keeps_item (h : x.Reached) (hw : 1 ≤ x.mWin.toNat) (hs : 1 ≤ x.mSize.toNat)
    {w : UInt32} (hw' : 1 ≤ w.toNat) (hlt : w.toNat < 2 ^ 30) :
    (x.winSet w).cursorAbs = x.cursorAbs ↔ ¬ x.CutOff w ∧ ¬ x.WinOvershoots w := by
  have hb := h.boundedInv
  have hc := hb.1.cursorAbs_toNat
  have hin := hb.1.cursorAbs_lt hw hs
  have hz : x.mOffset ≠ 0 ↔ x.mOffset.toNat ≠ 0 := not_congr toNat_eq_zero
  rw [← UInt32.toNat_inj, winSet_cursorAbs hb.1 hw hs hw' (by have := hb.2; omega), CutOff,
    WinOvershoots, hz]
  split <;> omega

/-- A list of four items in a window of two, at its end; the window grows to three lines. -/
theorem winSet_keeps_item_grown :
    ((((ofWin 2).apply (.sizeSet 4)).apply .cursorEndSet).winSet 3).cursorAbs =
      (((ofWin 2).apply (.sizeSet 4)).apply .cursorEndSet).cursorAbs :=
  (winSet_keeps_item
    (((Reached.ofWin 2 (by decide)).apply (.sizeSet 4)
      (show (4 : UInt32).toNat < 2 ^ 30 by decide)).apply .cursorEndSet trivial)
    (by decide) (by decide) (by decide) (by decide)).mpr (by decide)

/-- A list of three items in a window of three with the cursor on the last item; the window
shrinks to two lines and the cursor goes to item 1. -/
theorem winSet_keeps_item_fails : ¬ ∀ x : ListIdx, x.Reached → 1 ≤ x.mWin.toNat →
    1 ≤ x.mSize.toNat → ∀ w : UInt32, 1 ≤ w.toNat → w.toNat < 2 ^ 30 →
    (x.winSet w).cursorAbs = x.cursorAbs := by
  intro h
  have hr := (((Reached.ofWin 3 (by decide)).apply (.sizeSet 3)
    (show (3 : UInt32).toNat < 2 ^ 30 by decide)).apply .cursorEndSet trivial)
  exact absurd (h _ hr (by decide) (by decide) 2 (by decide) (by decide)) (by decide)

end ListIdx
end ProcessingCommon
