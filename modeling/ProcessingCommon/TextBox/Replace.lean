import ProcessingCommon.ListIdxResize
import ProcessingCommon.TextBox.ViewIndependence

/-!
# Replacing a selection

`selectionReplace` cuts the selection out, resizes the lower index to the remaining text and
reads the place for the new text back from that index. Text and cursor are as wanted unless the
resize overshoots or the remaining text is longer than `mLenMax`.
-/

namespace ProcessingCommon
namespace ListIdx

variable {x : ListIdx} {c : ListCursor}

/-- Every insert adds an item and moves the cursor behind it. -/
theorem Refines.iterate_insert (h : x.Refines c) (m : Nat) (hs : 0 < c.size)
    (hm : c.size + m < 2 ^ 32) :
    ∃ d : ListCursor, (ListIdx.insert^[m] x).Refines d ∧ d.size = c.size + m ∧
      d.pos = c.pos + m := by
  induction m generalizing x c with
  | zero => exact ⟨c, h, rfl, rfl⟩
  | succ m ih =>
    have hp := c.pos_le_pred
    have hi := insert_refines h
    rw [Nat.mod_eq_of_lt (by omega)] at hi
    have hsize' : (c.resize (c.size + 1)).next.size = c.size + 1 := by
      rw [ListCursor.next_size, ListCursor.resize_size]
    obtain ⟨d, hd, hsize, hpos⟩ := ih hi (by omega) (by omega)
    refine ⟨d, hd, ?_, ?_⟩
    · rw [hsize, ListCursor.next_size, ListCursor.resize_size]
      omega
    · rw [hpos, ListCursor.next_pos, ListCursor.resize_size, ListCursor.resize_pos]
      omega

end ListIdx

namespace TextBox

variable {b : TextBox} {ustr : U32String} {str : StdString}

/-- A box that can be edited: it has the focus and a window, and both indexes count the
positions of the text. -/
structure Editable (b : TextBox) : Prop where
  focus : b.mFocus = true
  front : b.mIdxFront.RepInv
  back : b.mIdxBack.RepInv
  win_front : 1 ≤ b.mIdxFront.mWin.toNat
  win_back : 1 ≤ b.mIdxBack.mWin.toNat
  size_front : b.mIdxFront.mSize.toNat = b.mUstrWork.length + 1
  size_back : b.mIdxBack.mSize.toNat = b.mUstrWork.length + 1
  lenMax : b.mLenMax < 2 ^ 16

theorem Consistent.editable (h : b.Consistent) (hf : b.mFocus = true)
    (hw : 1 ≤ b.mIdxFront.mWin.toNat) (hw' : 1 ≤ b.mIdxBack.mWin.toNat) : b.Editable where
  focus := hf
  front := h.front
  back := h.back
  win_front := hw
  win_back := hw'
  size_front := (h.fitsText hf).1.size_eq
  size_back := (h.fitsText hf).2.size_eq
  lenMax := h.lenMax

theorem Editable.fitsText (h : b.Editable) : b.FitsText b.mUstrWork.length where
  left := .of_window h.front h.size_front fun h0 => by
    have := h.win_front
    rw [h0] at this
    exact absurd this (by decide)
  right := .of_window h.back h.size_back fun h0 => by
    have := h.win_back
    rw [h0] at this
    exact absurd this (by decide)

theorem Editable.win_low (h : b.Editable) : 1 ≤ b.listIdxLow.mWin.toNat := by
  unfold listIdxLow
  split
  · exact h.win_back
  · exact h.win_front

/-! ## What a replacement is to do -/

/-- As much of the new text as `mLenMax` leaves room for. -/
def replacement (b : TextBox) (ustr : U32String) : U32String :=
  ustr.take (b.mLenMax - b.remaining.length)

/-- The rounds of the loop at the end of `selectionInsert`, for a box whose selection has been
cut out. -/
def insertCount (b : TextBox) (ustr : U32String) : Nat :=
  sizeSub (min (b.mUstrWork.length + ustr.length) b.mLenMax) b.mUstrWork.length

/-- `b'` is `b` with the selection replaced by as much of `ustr` as fits, both cursors behind
it, and one index insert was made for each new code point. -/
structure Replaced (b : TextBox) (ustr : U32String) (b' : TextBox) : Prop where
  text : b'.mUstrWork = b.mUstrWork.take b.listIdxLow.cursorAbs.toNat ++ b.replacement ustr ++
    b.mUstrWork.drop b.listIdxHigh.cursorAbs.toNat
  front : b'.mIdxFront.cursorAbs.toNat =
    b.listIdxLow.cursorAbs.toNat + (b.replacement ustr).length
  back : b'.mIdxBack.cursorAbs.toNat =
    b.listIdxLow.cursorAbs.toNat + (b.replacement ustr).length
  inserts : b.selectionClear.1.insertCount ustr = (b.replacement ustr).length

/-! ## What it does -/

/-- The index that both cursors have become before the insertion. -/
def clearedIdx (b : TextBox) : ListIdx := b.listIdxLow.assign (sizeToU32 (b.remaining.length + 1))

theorem Editable.high_le (h : b.Editable) :
    b.listIdxHigh.cursorAbs.toNat ≤ b.mUstrWork.length := h.fitsText.high.cursorAbs_le

theorem Editable.remaining_length (h : b.Editable) :
    b.remaining.length = b.mUstrWork.length - b.selectionLen := by
  have hl := low_add_selectionLen b
  have hh := h.high_le
  rw [remaining, List.length_append, List.length_take, List.length_drop]
  omega

theorem Editable.low_le (h : b.Editable) : b.listIdxLow.cursorAbs.toNat ≤ b.remaining.length := by
  have hl := low_add_selectionLen b
  have hh := h.high_le
  rw [h.remaining_length]
  omega

theorem Editable.selectionClear (h : b.Editable) : b.selectionClear =
    ({ b with mUstrWork := b.remaining, mIdxFront := b.clearedIdx, mIdxBack := b.clearedIdx },
      .ok ()) := by
  have hl := low_add_selectionLen b
  have hh := h.high_le
  have herase : eraseAt b.mUstrWork b.listIdxLow.cursorAbs.toNat b.selectionLen =
      .ok b.remaining := if_pos (by omega)
  simp only [TextBox.selectionClear, herase, clearedIdx]

theorem Editable.sizeToU32_remaining (h : b.Editable) :
    (sizeToU32 (b.remaining.length + 1)).toNat = b.remaining.length + 1 := by
  have hs := h.size_front
  have := b.mIdxFront.mSize.toNat_lt
  have hr := h.remaining_length
  exact sizeToU32_succ (by omega)

/-- The index fits the remaining text, wherever in it the cursor is. -/
theorem Editable.clearedIdx_fits (h : b.Editable) : b.clearedIdx.Fits b.remaining.length := by
  refine ListIdx.sizeSet_fits h.fitsText.low.inv h.sizeToU32_remaining fun h0 => ?_
  have := h.win_low
  rw [h0] at this
  exact absurd this (by decide)

/-- The whole of `selectionReplace`: the text goes to the cursor of the resized index, and the
index gets `insertCount` inserts. -/
theorem Editable.selectionReplace (h : b.Editable) (hd : strToUtf str = some ustr) :
    ∃ n, n = b.selectionClear.1.insertCount ustr ∧ b.selectionReplace str =
      ({ b with
          mUstrWork := b.remaining.take b.clearedIdx.cursorAbs.toNat ++ ustr.take n ++
            b.remaining.drop b.clearedIdx.cursorAbs.toNat
          mIdxFront := ListIdx.insert^[n] b.clearedIdx
          mIdxBack := ListIdx.insert^[n] b.clearedIdx }, .ok ()) := by
  have hpos : b.clearedIdx.cursorAbs.toNat ≤ b.remaining.length :=
    h.clearedIdx_fits.cursorAbs_le
  refine ⟨_, rfl, ?_⟩
  simp only [TextBox.selectionReplace, h.selectionClear, selectionInsert, hd, insertAt,
    if_pos hpos, insertCount]

/-- The lower index after the resize: where the selection began unless the resize overshoots. -/
theorem Editable.clearedIdx_cursorAbs (h : b.Editable) :
    b.clearedIdx.cursorAbs.toNat = b.listIdxLow.cursorAbs.toNat ↔
      ¬ b.listIdxLow.Overshoots (sizeToU32 (b.remaining.length + 1)) := by
  have hlow := h.fitsText.low
  have hle := h.low_le
  have hn := h.sizeToU32_remaining
  have := b.listIdxLow.mWin.toNat_lt
  rw [clearedIdx, ListIdx.assign, ListIdx.sizeSet_cursorAbs hlow.inv h.win_low
    (by rw [hlow.size_eq]; exact Nat.succ_pos _) (by omega) (by omega), ListIdx.overshoots_iff, hn]
  split <;> omega

/-- The loop makes one insert for each code point that fits, unless the remaining text is already
too long. -/
theorem Editable.insertCount (h : b.Editable) (ustr : U32String) :
    b.selectionClear.1.insertCount ustr = (b.replacement ustr).length ↔ b.ReplaceOk := by
  have hs := h.size_front
  have := b.mIdxFront.mSize.toNat_lt
  have hm := h.lenMax
  have hr := h.remaining_length
  rw [h.selectionClear, TextBox.insertCount, replacement, List.length_take, ReplaceOk,
    ← h.remaining_length, sizeSub]
  dsimp only
  constructor
  · intro he
    omega
  · intro hle
    omega

/-- The cursors after a replacement that fits. -/
theorem Editable.cursors (h : b.Editable) (hok : b.ReplaceOk) (ustr : U32String) :
    (ListIdx.insert^[(b.replacement ustr).length] b.clearedIdx).cursorAbs.toNat =
      b.clearedIdx.cursorAbs.toNat + (b.replacement ustr).length := by
  have hfit := h.clearedIdx_fits
  have hm := h.lenMax
  have hw : 0 < b.clearedIdx.mWin.toNat := by
    rw [clearedIdx, ListIdx.assign, ListIdx.sizeSet_mWin]
    exact h.win_low
  obtain ⟨c, hc, hr⟩ := hfit.inv.refines hw
  rw [hfit.size_eq] at hc
  rw [ReplaceOk, ← h.remaining_length] at hok
  have hlen : (b.replacement ustr).length ≤ b.mLenMax - b.remaining.length := by
    rw [replacement, List.length_take]
    exact Nat.min_le_left _ _
  obtain ⟨d, hd, -, hpos⟩ := hr.iterate_insert (b.replacement ustr).length (by omega) (by omega)
  rw [hd.pos_eq, hpos, hr.pos_eq]

/-- For every editable box and every decodable string: the selection is replaced as wanted
exactly when the remaining text is within `mLenMax` and the resize does not overshoot. -/
theorem selectionReplace_replaced (h : b.Editable) (hd : strToUtf str = some ustr) :
    (b.selectionReplace str).2 = .ok () ∧ b.Replaced ustr (b.selectionReplace str).1 ↔
      b.ReplaceOk ∧ ¬ b.listIdxLow.Overshoots (sizeToU32 (b.remaining.length + 1)) := by
  obtain ⟨n, hn, heq⟩ := h.selectionReplace hd
  have hcur := h.clearedIdx_cursorAbs
  constructor
  · rintro ⟨-, -, hfront, -, hins⟩
    have hok := (h.insertCount ustr).mp hins
    refine ⟨hok, hcur.mp ?_⟩
    rw [heq, hn, hins] at hfront
    have := h.cursors hok ustr
    dsimp only at hfront
    omega
  · rintro ⟨hok, hov⟩
    have hins := (h.insertCount ustr).mpr hok
    have hlow := hcur.mpr hov
    have hpos := h.cursors hok ustr
    have hlowlen : (b.mUstrWork.take b.listIdxLow.cursorAbs.toNat).length =
        b.listIdxLow.cursorAbs.toNat := by
      rw [List.length_take]
      exact Nat.min_eq_left h.fitsText.low.cursorAbs_le
    have htake : ustr.take (b.replacement ustr).length = b.replacement ustr := by
      rw [replacement, List.length_take, List.take_eq_take_iff]
      omega
    rw [heq, hn, hins]
    refine ⟨rfl, ?_, ?_, ?_, hins⟩
    · dsimp only
      rw [hlow, remaining, low_add_selectionLen,
        List.take_append_of_le_length (Nat.le_of_eq hlowlen.symm),
        List.take_of_length_le (Nat.le_of_eq hlowlen), htake,
        List.drop_append_of_le_length (Nat.le_of_eq hlowlen.symm),
        List.drop_of_length_le (Nat.le_of_eq hlowlen), List.nil_append]
    · exact hpos.trans (by rw [hlow])
    · exact hpos.trans (by rw [hlow])

/-- In `abc` the selected `b` becomes `x`. -/
theorem selectionReplace_replaced_middle :
    ((new.run [.focusSet true false, .ustrWorkSet [97, 98, 99], .selectionSet 1 1]).selectionReplace
        (utf8Of ['x'])).2 = .ok () ∧
      (new.run [.focusSet true false, .ustrWorkSet [97, 98, 99], .selectionSet 1 1]).Replaced [120]
        ((new.run [.focusSet true false, .ustrWorkSet [97, 98, 99],
          .selectionSet 1 1]).selectionReplace (utf8Of ['x'])).1 :=
  (selectionReplace_replaced
    (by
      rw [new_eq]
      exact ⟨by decide, .of_nat (by decide) (by decide) (by decide) (by decide),
        .of_nat (by decide) (by decide) (by decide) (by decide), by decide, by decide, by decide,
        by decide, by decide⟩)
    (strToUtf_utf8Of ['x'])).mpr (by rw [new_eq]; decide)

/-- Under a limit of two, `abc` has no room for the empty text: the index gets `2 ^ 64 - 1`
inserts. In a window of six that has scrolled over `abcdefgh`, the cut of `defg` leaves the
cursor behind the `h`. -/
theorem selectionReplace_replaced_fails :
    ((new.run [.lenMaxSet 2, .focusSet true false, .ustrWorkSet [97, 98, 99]]).Editable ∧
      ¬ (new.run [.lenMaxSet 2, .focusSet true false, .ustrWorkSet [97, 98, 99]]).Replaced []
        ((new.run [.lenMaxSet 2, .focusSet true false,
          .ustrWorkSet [97, 98, 99]]).selectionReplace ByteArray.empty).1) ∧
    ((new.run ([.widthSet 10, .focusSet true false, .ustrWorkSet [97, 98, 99, 100, 101, 102, 103, 104],
        .keyProcess (.ofCtrl keyLeft)] ++
        List.replicate 4 (.keyProcess { KeyUser.ofCtrl keyLeft with mModShift := true }))).Editable ∧
      ¬ (new.run ([.widthSet 10, .focusSet true false,
        .ustrWorkSet [97, 98, 99, 100, 101, 102, 103, 104], .keyProcess (.ofCtrl keyLeft)] ++
        List.replicate 4 (.keyProcess { KeyUser.ofCtrl keyLeft with mModShift := true }))).Replaced []
        ((new.run ([.widthSet 10, .focusSet true false,
          .ustrWorkSet [97, 98, 99, 100, 101, 102, 103, 104], .keyProcess (.ofCtrl keyLeft)] ++
          List.replicate 4 (.keyProcess
            { KeyUser.ofCtrl keyLeft with mModShift := true }))).selectionReplace
              ByteArray.empty).1) := by
  rw [new_eq]
  refine ⟨⟨⟨by decide, .of_nat (by decide) (by decide) (by decide) (by decide),
      .of_nat (by decide) (by decide) (by decide) (by decide), by decide, by decide, by decide,
      by decide, by decide⟩, fun h => absurd h.inserts (by decide +kernel)⟩,
    ⟨⟨by decide, .of_nat (by decide) (by decide) (by decide) (by decide),
      .of_nat (by decide) (by decide) (by decide) (by decide), by decide, by decide, by decide,
      by decide, by decide⟩, fun h => absurd h.front (by decide +kernel)⟩⟩

end TextBox
end ProcessingCommon
