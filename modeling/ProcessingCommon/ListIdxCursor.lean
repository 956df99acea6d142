import ProcessingCommon.Lib.ListCursor
import ProcessingCommon.ListIdxInvariant

/-!
# `ListIdx` is a list cursor

With a window, the absolute cursor of a `ListIdx` moves like a plain
`ListCursor`, whatever the window, the offset and the bounds are. The one
exception is a resize that makes a scrolled list shorter than its window.
-/

namespace ProcessingCommon
namespace ListIdx

/-- `x` shows the list cursor `c` through some window. -/
structure Refines (x : ListIdx) (c : ListCursor) : Prop where
  inv : x.RepInv
  win_pos : 0 < x.mWin.toNat
  size_eq : x.mSize.toNat = c.size
  pos_eq : x.cursorAbs.toNat = c.pos

variable {x : ListIdx} {c : ListCursor}

theorem Refines.pos_sum (h : x.Refines c) : x.mOffset.toNat + x.mCursor.toNat = c.pos := by
  rw [← h.pos_eq, h.inv.cursorAbs_toNat]

/-- A move of the same list is judged by offset and cursor. -/
theorem Refines.of_same (h : x.Refines c) {y : ListIdx} {d : ListCursor} (hy : y.RepInv)
    (hs : SameList x y) (hd : d.size = c.size)
    (hp : y.mOffset.toNat + y.mCursor.toNat = d.pos) : y.Refines d where
  inv := hy
  win_pos := by rw [hs.win]; exact h.win_pos
  size_eq := by rw [hs.size, hd]; exact h.size_eq
  pos_eq := by rw [hy.cursorAbs_toNat, hp]

/-- The arithmetic facts about a refinement, all in `Nat`. -/
theorem Refines.bounds (h : x.Refines c) :
    0 < x.mWin.toNat ∧ x.mSize.toNat = c.size ∧ x.mOffset.toNat + x.mCursor.toNat = c.pos ∧
    x.mCursor.toNat < max (min x.mWin.toNat c.size) 1 ∧
    (x.mOffset.toNat = 0 ∨ x.mOffset.toNat + x.mWin.toNat ≤ c.size) ∧
    x.mWin.toNat < 2 ^ 32 ∧ c.size < 2 ^ 32 := by
  have hc := h.inv.cursor_lt_max
  have ho := h.inv.offset_le
  rw [toNat_eq_zero] at ho
  have hs := h.size_eq
  rw [hs] at hc ho
  exact ⟨h.win_pos, hs, h.pos_sum, hc, ho, x.mWin.toNat_lt, hs ▸ x.mSize.toNat_lt⟩

theorem Refines.empty_iff (h : x.Refines c) : (x.mWin = 0 ∨ x.mSize = 0) ↔ c.size = 0 := by
  have := h.bounds
  rw [toNat_eq_zero, toNat_eq_zero]
  omega

theorem Refines.hardUbound (h : x.Refines c) (hc : ¬ c.size = 0) :
    x.hardUbound.toNat = min x.mWin.toNat c.size - 1 := by
  rw [← h.empty_iff, not_or] at hc
  rw [hardUbound_toNat hc.1 hc.2, h.size_eq]

/-- Any index with a window shows some cursor. -/
theorem RepInv.refines (h : x.RepInv) (hw : 0 < x.mWin.toNat) :
    ∃ c : ListCursor, c.size = x.mSize.toNat ∧ x.Refines c := by
  have hc := h.cursor_lt_max
  have ho := h.offset_le
  rw [toNat_eq_zero] at ho
  refine ⟨⟨x.mSize.toNat, x.cursorAbs.toNat, ?_⟩, rfl, ⟨h, hw, rfl, rfl⟩⟩
  rw [h.cursorAbs_toNat]
  omega

/-! ## Moves -/

theorem reset_refines (h : x.Refines c) :
    x.reset.1.Refines c.first ∧ x.reset.2 = ListCursor.moved c c.first := by
  have hb := h.bounds
  refine ⟨h.of_same (reset_repInv h.inv) (reset_same x) rfl rfl, ?_⟩
  rw [Bool.eq_iff_iff, ListCursor.moved_iff]
  simp only [reset, Bool.or_eq_true, bne_iff_ne, ne_eq, toNat_eq_zero, ListCursor.first_pos]
  omega

theorem cursorEndSet_refines (h : x.Refines c) :
    x.cursorEndSet.1.Refines c.last ∧ x.cursorEndSet.2 = ListCursor.moved c c.last := by
  have hb := h.bounds
  have he := h.inv.endReached_iff
  have hr := cursorEndSet_repInv h.inv
  have hs := cursorEndSet_same x
  revert hr hs
  unfold cursorEndSet
  simp only [h.empty_iff]
  split
  · next h0 =>
    intro hr hs
    refine ⟨h.of_same hr hs rfl ?_, ?_⟩
    · simp only [ListCursor.last_pos]
      omega
    · rw [Bool.eq_iff_iff, ListCursor.moved_iff]
      simp only [ListCursor.last_pos, Bool.false_eq_true, false_iff]
      omega
  · next h0 =>
    intro hr hs
    have hh := h.hardUbound h0
    refine ⟨h.of_same hr hs rfl ?_, ?_⟩
    · simp only [hh, ListCursor.last_pos, gt_iff_lt, UInt32.lt_iff_toNat_lt]
      split
      · simp only [UInt32.toNat_sub]
        omega
      · simp only [UInt32.toNat_zero]
        omega
    · rw [Bool.eq_iff_iff, ListCursor.moved_iff]
      simp only [Bool.or_eq_true, bne_iff_ne, ne_eq, ← UInt32.toNat_inj, hh, Bool.not_eq_true',
        ← Bool.not_eq_true, he, ListCursor.last_pos]
      omega

theorem inc_refines (h : x.Refines c) :
    x.inc.1.Refines c.next ∧ x.inc.2 = ListCursor.moved c c.next := by
  have hb := h.bounds
  have he := h.inv.endReached_iff
  have hr := inc_repInv h.inv
  have hs := inc_same x
  rw [Bool.eq_iff_iff, ListCursor.moved_iff]
  revert hr hs
  unfold inc
  simp only [h.empty_iff]
  split
  · next h0 =>
    intro hr hs
    refine ⟨h.of_same hr hs rfl ?_, ?_⟩
    all_goals simp only [ListCursor.next_pos, Bool.false_eq_true, false_iff]; omega
  · next h0 =>
    have hh := h.hardUbound h0
    split
    · next h1 =>
      rw [Bool.not_eq_true', Bool.eq_false_iff, ne_eq, he] at h1
      intro hr hs
      refine ⟨h.of_same hr hs rfl ?_, ?_⟩
      all_goals simp only [UInt32.toNat_add, UInt32.toNat_one, ListCursor.next_pos, true_iff]; omega
    · next h1 =>
      rw [Bool.not_eq_true', Bool.eq_false_iff, ne_eq, he] at h1
      have hu := h.inv.ubound_lt
      simp only [ge_iff_le, UInt32.le_iff_toNat_le] at h1
      split
      · next h2 =>
        intro hr hs
        rw [UInt32.lt_iff_toNat_lt] at h2
        refine ⟨h.of_same hr hs rfl ?_, ?_⟩
        all_goals
          simp only [UInt32.toNat_add, UInt32.toNat_one, ListCursor.next_pos, true_iff]
          omega
      · next h2 =>
        -- the bounds keep the cursor below the last window line of a view not at its end
        intro hr hs
        rw [UInt32.lt_iff_toNat_lt] at h2
        refine ⟨h.of_same hr hs rfl ?_, ?_⟩
        all_goals simp only [ListCursor.next_pos, Bool.false_eq_true, false_iff]; omega

theorem dec_refines (h : x.Refines c) :
    x.dec.1.Refines c.prev ∧ x.dec.2 = ListCursor.moved c c.prev := by
  have hb := h.bounds
  have hr := dec_repInv h.inv
  have hs := dec_same x
  rw [Bool.eq_iff_iff, ListCursor.moved_iff]
  revert hr hs
  unfold dec
  simp only [ne_eq, toNat_eq_zero, UInt32.le_iff_toNat_le]
  split
  · intro hr hs
    refine ⟨h.of_same hr hs rfl ?_, ?_⟩
    all_goals simp only [UInt32.toNat_sub, UInt32.toNat_one, ListCursor.prev_pos, true_iff]; omega
  · split
    · intro hr hs
      refine ⟨h.of_same hr hs rfl ?_, ?_⟩
      all_goals simp only [UInt32.toNat_sub, UInt32.toNat_one, ListCursor.prev_pos, true_iff]; omega
    · intro hr hs
      refine ⟨h.of_same hr hs rfl ?_, ?_⟩
      all_goals simp only [ListCursor.prev_pos, Bool.false_eq_true, false_iff]; omega

/-- The jump size in single steps; every step before the end of the list counts. -/
theorem jumpLoop_inc_refines (n : Nat) (b : Bool) (h : x.Refines c) :
    (jumpLoop inc n (x, b)).1.Refines (c.forward n) ∧
      (jumpLoop inc n (x, b)).2 = (b || ListCursor.moved c (c.forward n)) := by
  induction n generalizing x c b with
  | zero =>
    rw [ListCursor.forward_zero]
    exact ⟨h, by simp [jumpLoop, ListCursor.moved]⟩
  | succ n ih =>
    have hi := inc_refines h
    have ihn := ih (b || x.inc.2) hi.1
    have hc := c.pos_le_pred
    rw [ListCursor.next, ListCursor.forward_forward, Nat.add_comm 1 n] at ihn
    refine ⟨ihn.1, ihn.2.trans ?_⟩
    cases b with
    | true => simp
    | false =>
      rw [hi.2, Bool.false_or, Bool.false_or, Bool.eq_iff_iff]
      simp only [Bool.or_eq_true, ListCursor.moved_iff, ListCursor.next_pos, ListCursor.forward_pos]
      omega

theorem jumpLoop_dec_refines (n : Nat) (b : Bool) (h : x.Refines c) :
    (jumpLoop dec n (x, b)).1.Refines (c.back n) ∧
      (jumpLoop dec n (x, b)).2 = (b || ListCursor.moved c (c.back n)) := by
  induction n generalizing x c b with
  | zero => exact ⟨h, by simp [jumpLoop, ListCursor.moved]⟩
  | succ n ih =>
    have hi := dec_refines h
    have ihn := ih (b || x.dec.2) hi.1
    rw [ListCursor.prev, ListCursor.back_back, Nat.add_comm 1 n] at ihn
    refine ⟨ihn.1, ihn.2.trans ?_⟩
    cases b with
    | true => simp
    | false =>
      rw [hi.2, Bool.false_or, Bool.false_or, Bool.eq_iff_iff]
      simp only [Bool.or_eq_true, ListCursor.moved_iff, ListCursor.prev_pos, ListCursor.back_pos]
      omega

/-! ## Change items -/

/-- `sizeSet size` moves the cursor off its item: a scrolled list becomes shorter
than its window while there is an item behind the cursor. `sanityCheck` then adds
the whole overlap of the window to the cursor, but can take back only `mOffset`. -/
def Overshoots (x : ListIdx) (size : UInt32) : Prop :=
  x.mOffset ≠ 0 ∧ size.toNat < x.mWin.toNat ∧ x.cursorAbs.toNat + 1 < size.toNat

/-- Offset and cursor after a `sizeSet` whose sums do not wrap. -/
theorem sizeSet_offset_cursor (h : x.Refines c) {size : UInt32}
    (hov : c.size + x.mWin.toNat ≤ 2 ^ 32 + size.toNat) :
    (x.mOffset.toNat = 0 ∨ x.mOffset.toNat + x.mWin.toNat ≤ size.toNat) ∧
        (x.sizeSet size).mOffset = x.mOffset ∧
        (x.sizeSet size).mCursor.toNat =
          min x.mCursor.toNat (max (min x.mWin.toNat size.toNat) 1 - 1) ∨
      (x.mOffset.toNat ≠ 0 ∧ size.toNat < x.mOffset.toNat + x.mWin.toNat) ∧
        (x.sizeSet size).mOffset.toNat = size.toNat - x.mWin.toNat ∧
        (x.sizeSet size).mCursor.toNat =
          min (x.mCursor.toNat + (x.mOffset.toNat + x.mWin.toNat - size.toNat))
            (max (min x.mWin.toNat size.toNat) 1 - 1) := by
  obtain ⟨hw, -, -, hcur, ho, hwlt, hclt⟩ := h.bounds
  -- the cursor is in the window, and a scrolled view fits its list
  have hcw : x.mCursor.toNat < x.mWin.toNat := by
    have := Nat.min_le_left x.mWin.toNat c.size
    omega
  refine sanityCheck_offset_cursor { x with mSize := size } ?_ ?_
  · dsimp only
    rcases ho with ho | ho <;> omega
  · dsimp only
    rcases ho with ho | ho <;> omega

theorem sizeSet_refines (h : x.Refines c) {size : UInt32} (hj : ¬ x.Overshoots size)
    (hov : c.size + x.mWin.toNat ≤ 2 ^ 32 + size.toNat) :
    (x.sizeSet size).Refines (c.resize size.toNat) := by
  have hr := sizeSet_repInv h.inv size
  have hb := h.bounds
  have hoc := sizeSet_offset_cursor h hov
  rw [Overshoots, ne_eq, toNat_eq_zero, h.pos_eq] at hj
  refine ⟨hr, by rw [sizeSet_mWin]; exact h.win_pos, by rw [sizeSet_mSize]; rfl, ?_⟩
  rw [hr.cursorAbs_toNat, ListCursor.resize_pos]
  rcases hoc with ⟨ho, ho', hc'⟩ | ⟨ho, ho', hc'⟩
  · rw [ho', hc']
    omega
  · rw [ho', hc']
    omega

/-- One item more never overshoots, also where the size wraps to `0`. -/
theorem grow_refines (h : x.Refines c) :
    (x.sizeSet (x.mSize + 1)).Refines (c.resize ((c.size + 1) % 2 ^ 32)) := by
  have hb := h.bounds
  have hn : (x.mSize + 1).toNat = (c.size + 1) % 2 ^ 32 := by
    rw [UInt32.toNat_add, UInt32.toNat_one, h.size_eq]
  by_cases hw : c.size + 1 < 2 ^ 32
  · rw [← hn]
    refine sizeSet_refines h ?_ (by omega)
    rw [Overshoots, ne_eq, toNat_eq_zero]
    omega
  · have h0 : x.mSize + 1 = 0 := by
      rw [toNat_eq_zero, hn]
      omega
    have hr := sizeSet_repInv h.inv (x.mSize + 1)
    have hc := hr.cursor_zero (.inr (by rw [sizeSet_mSize, h0]))
    have ho := hr.offset_le_size
    have hz : (x.sizeSet (x.mSize + 1)).mSize.toNat = 0 := by rw [sizeSet_mSize, h0]; rfl
    refine ⟨hr, by rw [sizeSet_mWin]; exact h.win_pos, by rw [sizeSet_mSize, hn]; rfl, ?_⟩
    rw [hr.cursorAbs_toNat, hc, ListCursor.resize_pos, UInt32.toNat_zero]
    omega

theorem insert_refines (h : x.Refines c) :
    x.insert.Refines (c.resize ((c.size + 1) % 2 ^ 32)).next :=
  (inc_refines (grow_refines h)).1

/-- One item less never overshoots: a scrolled list is longer than its window. -/
theorem shrink_refines (h : x.Refines c) (hs : 0 < c.size) :
    (x.sizeSet (x.mSize - 1)).Refines (c.resize (c.size - 1)) := by
  have hb := h.bounds
  have hn : (x.mSize - 1).toNat = c.size - 1 := by
    rw [UInt32.toNat_sub, UInt32.toNat_one]
    omega
  rw [← hn]
  refine sizeSet_refines h ?_ (by omega)
  rw [Overshoots, ne_eq, toNat_eq_zero]
  omega

/-- `decOffset` on a scrolled view moves back by one. -/
theorem decOffset_refines (h : x.Refines c) (ho : ¬ x.mOffset = 0) :
    x.decOffset.1.Refines c.prev := by
  have hb := h.bounds
  have hr := decOffset_repInv h.inv
  have hs := decOffset_same x
  revert hr hs
  rw [decOffset, if_neg ho]
  rw [toNat_eq_zero] at ho
  intro hr hs
  refine h.of_same hr hs rfl ?_
  simp only [UInt32.toNat_sub, UInt32.toNat_one, ListCursor.prev_pos]
  omega

/-- `incCursor` moves forward by one unless the cursor is on the last line. -/
theorem incCursor_refines (h : x.Refines c) :
    x.incCursor.1.Refines
      (if x.mCursor.toNat + 1 < min x.mWin.toNat c.size then c.next else c) := by
  have hb := h.bounds
  have hr := incCursor_repInv h.inv
  have hs := incCursor_same x
  revert hr hs
  unfold incCursor
  simp only [h.empty_iff]
  split
  · next h0 =>
    rw [if_neg (by omega)]
    exact fun _ _ => h
  · next h0 =>
    have hh := h.hardUbound h0
    simp only [← UInt32.toNat_inj, hh]
    split
    · rw [if_neg (by omega)]
      exact fun _ _ => h
    · rw [if_pos (by omega)]
      intro hr hs
      refine h.of_same hr hs rfl ?_
      simp only [UInt32.toNat_add, UInt32.toNat_one, ListCursor.next_pos]
      omega

/-- The test of both erase functions for a scrolled view at its end. -/
theorem Refines.scrolledEnd_iff (h : x.Refines c) :
    (x.endReached = true ∧ x.mSize > x.mWin) ↔
      x.mOffset.toNat ≠ 0 ∧ x.mOffset.toNat + x.mWin.toNat = c.size := by
  have hb := h.bounds
  rw [h.inv.endReached_iff, gt_iff_lt, UInt32.lt_iff_toNat_lt]
  omega

theorem currErase_refines (h : x.Refines c) :
    x.currErase.1.Refines c.eraseCurr ∧ x.currErase.2 = decide (0 < c.size) := by
  have hb := h.bounds
  unfold currErase
  simp only [h.scrolledEnd_iff, toNat_eq_zero, h.size_eq]
  split
  · next h0 =>
    refine ⟨h.of_same h.inv (.refl x) ?_ ?_, by simp; omega⟩
    · simp only [ListCursor.eraseCurr, ListCursor.resize_size]
      omega
    · simp only [ListCursor.eraseCurr, ListCursor.resize_pos]
      omega
  · next h0 =>
    refine ⟨?_, by simp; omega⟩
    split
    · next h1 =>
      -- the view goes back by one line and the cursor follows its item, if it can
      have hd := decOffset_refines h (by rw [toNat_eq_zero]; exact h1.1)
      have hi := incCursor_refines hd
      have hdc : x.decOffset.1.mCursor = x.mCursor := by
        unfold decOffset
        split <;> rfl
      rw [hdc, (decOffset_same x).win, ListCursor.prev_size] at hi
      split at hi
      · have hsh := shrink_refines hi
          (by simp only [ListCursor.next_size, ListCursor.prev_size]; omega)
        refine ⟨hsh.inv, hsh.win_pos, hsh.size_eq.trans rfl, hsh.pos_eq.trans ?_⟩
        simp only [ListCursor.eraseCurr, ListCursor.resize_pos, ListCursor.next_size,
          ListCursor.next_pos, ListCursor.prev_size, ListCursor.prev_pos]
        omega
      · have hsh := shrink_refines hi (by rw [ListCursor.prev_size]; omega)
        refine ⟨hsh.inv, hsh.win_pos, hsh.size_eq.trans rfl, hsh.pos_eq.trans ?_⟩
        simp only [ListCursor.eraseCurr, ListCursor.resize_pos, ListCursor.prev_size,
          ListCursor.prev_pos]
        omega
    · exact shrink_refines h (by omega)

theorem prevErase_refines (h : x.Refines c) :
    x.prevErase.1.Refines (if c.pos = 0 then c else c.erasePrev) ∧
      x.prevErase.2 = decide (0 < c.pos) := by
  have hb := h.bounds
  unfold prevErase
  simp only [h.scrolledEnd_iff, toNat_eq_zero, h.pos_eq]
  split
  · next h0 => exact ⟨h, by simp; omega⟩
  · next h0 =>
    refine ⟨?_, by simp; omega⟩
    split
    · next h1 =>
      exact shrink_refines (decOffset_refines h (by rw [toNat_eq_zero]; exact h1.1))
        (by rw [ListCursor.prev_size]; omega)
    · exact shrink_refines (dec_refines h).1 (by rw [ListCursor.prev_size]; omega)

end ListIdx
end ProcessingCommon
