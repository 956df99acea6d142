import ProcessingCommon.TextBox.Replace

/-!
# Input that is rejected

A text that is not well-formed UTF-8 is rejected by the converter. `currentSet` has stored its
bytes by then, and a paste into a focused box has already cut the selection out.
-/

namespace ProcessingCommon

namespace ListIdx

variable {x : ListIdx}

/-- The size that an index has is no news to it. -/
theorem RepInv.sizeSet_self (h : x.RepInv) : x.sizeSet x.mSize = x := by
  have hoff : ¬ (x.mOffset ≠ 0 ∧ x.mOffset + x.mWin > x.mSize) := by
    rintro ⟨hne, hgt⟩
    have hle := h.offset_le.resolve_left hne
    have hlt := x.mSize.toNat_lt
    rw [gt_iff_lt, UInt32.lt_iff_toNat_lt, UInt32.toNat_add] at hgt
    omega
  have hcur : (if x.mWin ≠ 0 ∧ x.mSize ≠ 0 then x.hardUbound else 0) ≥ x.mCursor := by
    split
    · next hboth =>
      rw [ge_iff_le, UInt32.le_iff_toNat_le, hardUbound_toNat hboth.1 hboth.2]
      have := h.cursor_lt hboth.1 hboth.2
      omega
    · next hboth =>
      rw [not_and_or, not_ne_iff, not_ne_iff] at hboth
      rw [h.cursor_zero hboth]
      exact UInt32.le_refl 0
  show x.sanityCheck = x
  rw [sanityCheck, offsetCheck, if_neg hoff, cursorCheck,
    if_neg (UInt32.not_lt.mpr hcur)]

end ListIdx

namespace TextBox

open ListIdx

variable {b : TextBox} {str : StdString}

/-- Committed text, work text and indexes are what they were. -/
structure Untouched (b b' : TextBox) : Prop where
  current : b'.mCurrent = b.mCurrent
  ustrCurrent : b'.mUstrCurrent = b.mUstrCurrent
  work : b'.mUstrWork = b.mUstrWork
  front : b'.mIdxFront = b.mIdxFront
  back : b'.mIdxBack = b.mIdxBack

theorem Untouched.refl (b : TextBox) : Untouched b b := ⟨rfl, rfl, rfl, rfl, rfl⟩

/-- Nothing is selected, down to the offsets of the two views, and the index counts the positions
of the text; or the cursor is not in the text, and the erase throws before anything is done. -/
def PasteUntouched (b : TextBox) : Prop :=
  b.mUstrWork.length < b.listIdxLow.cursorAbs.toNat ∨
    b.mIdxFront = b.mIdxBack ∧ b.mIdxFront.mSize = sizeToU32 (b.mUstrWork.length + 1)

/-- The bytes are stored before they are converted. -/
theorem currentSet_rejected (b : TextBox) (hbad : strToUtf str = none) :
    b.currentSet str = ({ b with mCurrent := str }, .error .rangeError) := by
  unfold currentSet
  dsimp only
  rw [hbad]

theorem currentSet_untouched (b : TextBox) (hbad : strToUtf str = none) :
    Untouched b (b.currentSet str).1 ↔ b.mCurrent = str := by
  rw [currentSet_rejected b hbad]
  constructor
  · intro h
    exact h.current.symm
  · intro h
    exact ⟨h.symm, rfl, rfl, rfl, rfl⟩

/-- The selection is cut out before the text is converted. -/
theorem selectionReplace_rejected (b : TextBox) (hbad : strToUtf str = none) :
    (b.selectionReplace str).1 = b.selectionClear.1 := by
  unfold selectionReplace
  split
  · next hclear => rw [hclear]
  · next b' hclear => rw [hclear, selectionInsert, hbad]

theorem selectionClear_untouched (h : b.mIdxFront.RepInv) :
    Untouched b b.selectionClear.1 ↔ b.PasteUntouched := by
  unfold selectionClear eraseAt PasteUntouched
  by_cases hin : b.listIdxLow.cursorAbs.toNat ≤ b.mUstrWork.length
  · rw [if_pos hin, or_iff_right (Nat.not_lt.mpr hin)]
    dsimp only
    constructor
    · rintro ⟨-, -, hwork, hfront, hback⟩
      dsimp only at hwork hfront hback
      rw [hwork] at hfront
      refine ⟨hfront.symm.trans (by rw [← hback, hwork]), ?_⟩
      rw [← hfront]
      exact sizeSet_mSize _ _
    · rintro ⟨hsame, hsize⟩
      have hlow : b.listIdxLow = b.mIdxFront := by
        rw [listIdxLow, ← hsame, if_neg (UInt32.lt_irrefl _)]
      have hhigh : b.listIdxHigh = b.mIdxFront := by
        rw [listIdxHigh, ← hsame, if_neg (UInt32.lt_irrefl _)]
      have hlen : b.selectionLen = 0 := by
        rw [selectionLen, hlow, hhigh, UInt32.sub_self]
        rfl
      have hidx : b.mIdxFront.assign (sizeToU32 (b.mUstrWork.length + 1)) = b.mIdxFront := by
        rw [← hsize]
        exact h.sizeSet_self
      rw [hlen, Nat.add_zero, List.take_append_drop, hlow, hidx]
      exact ⟨rfl, rfl, rfl, rfl, hsame⟩
  · rw [if_neg hin]
    exact iff_of_true (.refl b) (.inl (Nat.not_le.mp hin))

/-- Between the calls the cursors are in the text, and the sizes count its positions. -/
theorem Consistent.pasteUntouched_iff (h : b.Consistent) (hf : b.mFocus = true) :
    b.PasteUntouched ↔ b.mIdxFront = b.mIdxBack := by
  have hfits := h.fitsText hf
  have hle := hfits.low.cursorAbs_le
  have hsize : b.mIdxFront.mSize = sizeToU32 (b.mUstrWork.length + 1) := by
    rw [← UInt32.toNat_inj, hfits.1.size_eq, sizeToU32, UInt32.toNat_ofNat_of_lt' h.work]
  constructor
  · intro hp
    exact (hp.resolve_left (Nat.not_lt.mpr hle)).1
  · intro hsame
    exact .inr ⟨hsame, hsize⟩

/-- A rejected text leaves the box as it was exactly if its bytes are the committed ones already,
and in a box with focus exactly if there is no selection to cut out. -/
theorem rejected_input (h : b.mIdxFront.RepInv) (hbad : strToUtf str = none) :
    (Untouched b (b.currentSet str).1 ↔ b.mCurrent = str) ∧
      (Untouched b (b.paste str).1 ↔ if b.mFocus then b.PasteUntouched else b.mCurrent = str) := by
  refine ⟨currentSet_untouched b hbad, ?_⟩
  unfold paste
  cases hf : b.mFocus with
  | false =>
    rw [if_pos (by decide), if_neg Bool.false_ne_true]
    exact currentSet_untouched b hbad
  | true =>
    rw [if_neg (by decide), if_pos rfl, selectionReplace_rejected b hbad]
    exact selectionClear_untouched h

/-- A byte that occurs nowhere in UTF-8. -/
def badByte : StdString := ⟨#[0xFF]⟩

/-- A focused box whose whole text is selected. -/
def markedLine : TextBox :=
  new.run [.focusSet true true, .ustrWorkSet [97, 98], .keyProcess (.ofCtrl keyCtrlA)]

theorem rejected_input_marked :
    (Untouched markedLine (markedLine.currentSet badByte).1 ↔ markedLine.mCurrent = badByte) ∧
      (Untouched markedLine (markedLine.paste badByte).1 ↔
        if markedLine.mFocus then markedLine.PasteUntouched
        else markedLine.mCurrent = badByte) :=
  rejected_input ⟨by decide, by decide, by decide, by decide, by decide⟩ (by decide)

/-- A new box keeps the bytes, and the selected text is gone. -/
theorem rejected_input_fails :
    strToUtf badByte = none ∧ ¬ Untouched new (new.currentSet badByte).1 ∧
      ¬ Untouched new (new.paste badByte).1 ∧
      ¬ Untouched markedLine (markedLine.paste badByte).1 := by
  have hbytes : badByte ≠ ByteArray.empty := by decide
  have hnew : ¬ Untouched new (new.currentSet badByte).1 := fun h => hbytes h.current
  refine ⟨by decide, hnew, hnew, fun h => ?_⟩
  have hwork : (markedLine.paste badByte).1.mUstrWork = [97, 98] := h.work
  exact absurd hwork (by decide)

end TextBox
end ProcessingCommon
