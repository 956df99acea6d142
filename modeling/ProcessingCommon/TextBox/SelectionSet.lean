import ProcessingCommon.ListIdxCursor
import ProcessingCommon.TextBox.Model

/-!
# Selecting a range

`selectionSet` clamps start and end to the text and walks the cursors there. The end is the
`uint16_t` sum of start and length: when it wraps it lies before the start, and the clamp that
was to catch an end behind the text does not see it.
-/

namespace ProcessingCommon

namespace ListIdx

variable {x : ListIdx} {c : ListCursor}

/-- Single steps add up. -/
theorem Refines.iterate_inc (h : x.Refines c) (m : Nat) :
    ((fun x => x.inc.1)^[m] x).Refines (c.forward m) := by
  induction m generalizing x c with
  | zero =>
    rw [ListCursor.forward_zero]
    exact h
  | succ m ih =>
    have hnext := ih (inc_refines h).1
    rw [ListCursor.next, ListCursor.forward_forward, Nat.add_comm 1 m] at hnext
    exact hnext

end ListIdx

namespace TextBox

open ListIdx

variable {b : TextBox} {idxStart len : UInt16}

/-- The range was selected, as far as the text of `n` characters has it. A length of `0` stands
for the rest of the text. -/
structure RangeSelected (n : Nat) (idxStart len : UInt16) (b : TextBox) : Prop where
  back : b.mIdxBack.cursorAbs.toNat = min idxStart.toNat n
  front : b.mIdxFront.cursorAbs.toNat =
    if len = 0 then n else min (idxStart.toNat + len.toNat) n

/-- The end as `selectionSet` computes it. -/
def rangeEnd (n : Nat) (idxStart len : UInt16) : Nat :=
  if len = 0 ∨ n < (idxStart + len).toNat then n else (idxStart + len).toNat

/-- Where the cursors get to, for any arguments. -/
theorem selectionSet_cursors (hi : b.mIdxFront.RepInv) (hw : 1 ≤ b.mIdxFront.mWin.toNat)
    (hs : b.mIdxFront.mSize.toNat = b.shown.length + 1) (hn : b.shown.length ≤ 65535)
    (idxStart len : UInt16) :
    (b.selectionSet idxStart len).mIdxBack.cursorAbs.toNat = min idxStart.toNat b.shown.length ∧
      (b.selectionSet idxStart len).mIdxFront.cursorAbs.toNat =
        max (min idxStart.toNat b.shown.length) (rangeEnd b.shown.length idxStart len) := by
  obtain ⟨c, hsize, hc⟩ := hi.refines hw
  have hfirst := (reset_refines hc).1
  have hmax : (UInt16.ofNat b.shown.length).toNat = b.shown.length :=
    UInt16.toNat_ofNat_of_lt' (Nat.lt_succ_of_le hn)
  have hstart : (if idxStart > UInt16.ofNat b.shown.length then UInt16.ofNat b.shown.length
      else idxStart).toNat = min idxStart.toNat b.shown.length := by
    simp only [gt_iff_lt, UInt16.lt_iff_toNat_lt, hmax]
    split <;> omega
  have hend : (if len = 0 ∨ idxStart + len > UInt16.ofNat b.shown.length then
      UInt16.ofNat b.shown.length else idxStart + len).toNat =
      rangeEnd b.shown.length idxStart len := by
    simp only [rangeEnd, gt_iff_lt, UInt16.lt_iff_toNat_lt, hmax]
    split
    · exact hmax
    · rfl
  have hle : rangeEnd b.shown.length idxStart len ≤ b.shown.length := by
    unfold rangeEnd
    split <;> omega
  have hback := hfirst.iterate_inc (min idxStart.toNat b.shown.length)
  have hfront := hback.iterate_inc (rangeEnd b.shown.length idxStart len -
    min idxStart.toNat b.shown.length)
  rw [← hstart] at hback
  rw [← hstart, ← hend] at hfront
  refine ⟨hback.pos_eq.trans ?_, hfront.pos_eq.trans ?_⟩
  · rw [hstart]
    simp only [ListCursor.forward_pos, ListCursor.first_pos]
    have hcs : c.first.size = b.shown.length + 1 := hsize.trans hs
    omega
  · rw [hstart, hend]
    simp only [ListCursor.forward_pos, ListCursor.forward_size, ListCursor.first_pos]
    have hcs : c.first.size = b.shown.length + 1 := hsize.trans hs
    omega

/-- A start in the text whose sum with the length wraps is later than the end. -/
theorem max_rangeEnd_iff (n : Nat) (hn : n ≤ 65535) :
    max (min idxStart.toNat n) (rangeEnd n idxStart len) =
        (if len = 0 then n else min (idxStart.toNat + len.toNat) n) ↔
      idxStart.toNat + len.toNat < 2 ^ 16 ∨ n ≤ idxStart.toNat := by
  have hsum : (idxStart + len).toNat = (idxStart.toNat + len.toNat) % 2 ^ 16 :=
    UInt16.toNat_add idxStart len
  have hstart := idxStart.toNat_lt
  have hlen := len.toNat_lt
  have hzero : len = 0 ↔ len.toNat = 0 := by rw [← UInt16.toNat_inj, UInt16.toNat_zero]
  rw [rangeEnd, hsum]
  by_cases hl : len = 0
  · have hl' := hzero.mp hl
    rw [if_pos (.inl hl), if_pos hl]
    omega
  rw [if_neg hl]
  by_cases hwrap : idxStart.toNat + len.toNat < 2 ^ 16
  · rw [Nat.mod_eq_of_lt hwrap]
    by_cases hbehind : n < idxStart.toNat + len.toNat
    · rw [if_pos (.inr hbehind)]
      omega
    · rw [if_neg (not_or.mpr ⟨hl, hbehind⟩)]
      omega
  · -- the wrapped sum is less than the start
    have hmod : (idxStart.toNat + len.toNat) % 2 ^ 16 = idxStart.toNat + len.toNat - 2 ^ 16 := by
      omega
    rw [hmod]
    by_cases hbehind : n < idxStart.toNat + len.toNat - 2 ^ 16
    · rw [if_pos (.inr hbehind)]
      omega
    · rw [if_neg (not_or.mpr ⟨hl, hbehind⟩)]
      omega

/-- The range is selected exactly if the sum of start and length is a `uint16_t` or the start is
not in the text. -/
theorem selectionSet_selected (hi : b.mIdxFront.RepInv) (hw : 1 ≤ b.mIdxFront.mWin.toNat)
    (hs : b.mIdxFront.mSize.toNat = b.shown.length + 1) (hn : b.shown.length ≤ 65535) :
    RangeSelected b.shown.length idxStart len (b.selectionSet idxStart len) ↔
      idxStart.toNat + len.toNat < 2 ^ 16 ∨ b.shown.length ≤ idxStart.toNat := by
  obtain ⟨hback, hfront⟩ := selectionSet_cursors hi hw hs hn idxStart len
  rw [← max_rangeEnd_iff b.shown.length hn]
  constructor
  · intro h
    rw [← hfront]
    exact h.front
  · intro h
    exact ⟨hback, hfront.trans h⟩

def shortLine : TextBox :=
  new.run [.focusSet true true, .ustrWorkSet (['l', 'i', 's', 't', 'i', 'd', 'x'].map Char.val)]

/-- From the third character to the end, asked for with a length that does not wrap. -/
theorem selectionSet_selected_short :
    RangeSelected shortLine.shown.length 2 65533 (shortLine.selectionSet 2 65533) ↔
      (2 : UInt16).toNat + (65533 : UInt16).toNat < 2 ^ 16 ∨
        shortLine.shown.length ≤ (2 : UInt16).toNat :=
  selectionSet_selected ⟨by decide, by decide, by decide, by decide, by decide⟩ (by decide)
    (by decide) (by decide)

/-- One more, and nothing is selected. -/
theorem selectionSet_selected_fails :
    ¬ ∀ (b : TextBox) (idxStart len : UInt16), b.mIdxFront.RepInv → b.mIdxBack.RepInv →
      1 ≤ b.mIdxFront.mWin.toNat → b.mIdxFront.mSize.toNat = b.shown.length + 1 →
      b.mIdxBack.mSize.toNat = b.shown.length + 1 → b.shown.length ≤ 65535 →
      RangeSelected b.shown.length idxStart len (b.selectionSet idxStart len) := by
  intro h
  have hrange := h shortLine 2 65535 ⟨by decide, by decide, by decide, by decide, by decide⟩
    ⟨by decide, by decide, by decide, by decide, by decide⟩ (by decide) (by decide) (by decide)
    (by decide)
  exact absurd hrange.front (by decide)

end TextBox
end ProcessingCommon
