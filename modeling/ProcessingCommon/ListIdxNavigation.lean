import ProcessingCommon.ListIdxCursor

/-!
# What navigation and editing do to the cursor

In a list with a window, each move of a `ListIdx` puts the cursor where the same move of a
`ListCursor` puts it, and says by its result whether cursor or offset are others than before.
Inserting and erasing keep the cursor on its item.
-/

namespace ProcessingCommon
namespace ListIdx

variable {x y : ListIdx} {c d : ListCursor} {r : ListIdx × Bool} {pos : Nat}

/-- What makes a redraw necessary. -/
def Changed (x y : ListIdx) : Prop := y.mCursor ≠ x.mCursor ∨ y.mOffset ≠ x.mOffset

/-- A move of `x` that ended with the cursor on item `pos` and reported itself truthfully. -/
structure Lands (x : ListIdx) (r : ListIdx × Bool) (pos : Nat) : Prop where
  cursorAbs : r.1.cursorAbs.toNat = pos
  reported : r.2 = true ↔ Changed x r.1

theorem not_changed (hc : y.mCursor = x.mCursor) (ho : y.mOffset = x.mOffset) :
    ¬ Changed x y := by
  rintro (h | h)
  · exact h hc
  · exact h ho

/-- The cursor is on another item only where cursor or offset are others. -/
theorem changed_of_moved (hx : x.Refines c) (hy : y.Refines d)
    (hm : ListCursor.moved c d = true) : Changed x y := by
  rw [ListCursor.moved_iff, ← hx.pos_eq, ← hy.pos_eq] at hm
  by_contra hn
  rw [Changed, not_or, not_not, not_not] at hn
  refine hm ?_
  rw [ListIdx.cursorAbs, ListIdx.cursorAbs, hn.1, hn.2]

/-- A move that says `false` has to leave cursor and offset; the rest is the refinement. -/
theorem Refines.lands (h : x.Refines c) (hr : r.1.Refines d ∧ r.2 = ListCursor.moved c d)
    (hunmoved : r.2 = false → ¬ Changed x r.1) : Lands x r d.pos where
  cursorAbs := hr.1.pos_eq
  reported := by
    constructor
    · intro ht
      exact changed_of_moved h hr.1 (hr.2 ▸ ht)
    · intro hc
      by_contra hf
      exact hunmoved (Bool.eq_false_iff.mpr hf) hc

/-! ## Moves that say `false` -/

theorem inc_unmoved (h : x.inc.2 = false) : x.inc.1 = x := by
  revert h
  unfold inc
  split_ifs <;> simp

theorem dec_unmoved (h : x.dec.2 = false) : x.dec.1 = x := by
  revert h
  unfold dec
  split_ifs <;> simp

theorem jumpLoop_unmoved {move : ListIdx → ListIdx × Bool}
    (hm : ∀ {x}, (move x).2 = false → (move x).1 = x) (n : Nat) {b : Bool}
    (h : (jumpLoop move n (x, b)).2 = false) : (jumpLoop move n (x, b)).1 = x ∧ b = false := by
  induction n generalizing x b with
  | zero => exact ⟨rfl, h⟩
  | succ n ih =>
    obtain ⟨hx, hb⟩ := ih h
    rw [Bool.or_eq_false_iff] at hb
    exact ⟨hx.trans (hm hb.2), hb.1⟩

theorem reset_unmoved (h : x.reset.2 = false) : ¬ Changed x x.reset.1 := by
  simp only [reset, Bool.or_eq_false_iff, bne_eq_false_iff_eq] at h
  exact not_changed h.1.symm h.2.symm

/-- At the end of the list the view has the offset that `cursorEndSet` sets. -/
theorem cursorEndSet_unmoved (hi : x.RepInv) (h : x.cursorEndSet.2 = false) :
    ¬ Changed x x.cursorEndSet.1 := by
  have he := hi.endReached_iff
  have ho := hi.offset_le
  revert h
  unfold cursorEndSet
  split
  · intro _
    exact not_changed rfl rfl
  · intro h
    rw [Bool.or_eq_false_iff, bne_eq_false_iff_eq, Bool.not_eq_false', he] at h
    refine not_changed h.1.symm ?_
    rw [toNat_eq_zero] at ho
    rw [← UInt32.toNat_inj]
    simp only [gt_iff_lt, UInt32.lt_iff_toNat_lt]
    split
    · next hs =>
      rw [UInt32.toNat_sub_of_le _ _ (UInt32.le_iff_toNat_le.mpr (Nat.le_of_lt hs))]
      omega
    · rw [UInt32.toNat_zero]
      omega

/-! ## The jump size -/

theorem sizeJumpSet_bounds (x : ListIdx) (size : UInt16) :
    1 ≤ (x.sizeJumpSet size).mSizeJump.toNat ∧ (x.sizeJumpSet size).mSizeJump.toNat < 2 ^ 16 := by
  have hlt := size.toNat_lt
  simp only [sizeJumpSet, UInt16.lt_iff_toNat_lt]
  split
  · decide
  · next h =>
    rw [UInt16.toNat_toUInt32]
    have : dMinSizeJump.toNat = 1 := rfl
    omega

/-- Only `sizeJumpSet` touches the jump size. -/
theorem apply_sizeJump (x : ListIdx) (op : Op) :
    (x.apply op).mSizeJump = x.mSizeJump ∨ ∃ size, op = .sizeJumpSet size := by
  cases op with
  | sizeJumpSet size => exact .inr ⟨size, rfl⟩
  | winSet win => exact .inl (sanityCheck_same _).sizeJump
  | sizeSet size | assign size => exact .inl (sizeSet_same x size).sizeJump
  | cursorLboundSet bnd | cursorUboundSet bnd | textModeSet => exact .inl rfl
  | cursorBoundSet bnd =>
    left
    show (x.cursorBoundSet bnd).mSizeJump = _
    unfold cursorBoundSet
    split <;> rfl
  | keyProcess key dis => exact .inl (keyProcess_same x key dis).sizeJump
  | reset => exact .inl (reset_same x).sizeJump
  | cursorEndSet => exact .inl (cursorEndSet_same x).sizeJump
  | incOffset => exact .inl (incOffset_same x).sizeJump
  | decOffset => exact .inl (decOffset_same x).sizeJump
  | incCursor => exact .inl (incCursor_same x).sizeJump
  | decCursor => exact .inl (decCursor_same x).sizeJump
  | inc => exact .inl (inc_same x).sizeJump
  | dec => exact .inl (dec_same x).sizeJump
  | incJump => exact .inl (jumpLoop_same inc_same _ x _).sizeJump
  | decJump => exact .inl (jumpLoop_same dec_same _ x _).sizeJump
  | insert => exact .inl (insert_sizeJump x)
  | grow | growBy num | shrinkBy num => exact .inl (sizeSet_same x _).sizeJump
  | currErase => exact .inl (currErase_sizeJump x)
  | prevErase => exact .inl (prevErase_sizeJump x)
  | shrink =>
    left
    show (x.shrink).mSizeJump = _
    unfold shrink
    split
    · rfl
    · exact (sizeSet_same x _).sizeJump

/-- The `uint16_t` counter of the jump loops gets to every jump size. -/
theorem Reached.sizeJump (h : x.Reached) : 1 ≤ x.mSizeJump.toNat ∧ x.mSizeJump.toNat < 2 ^ 16 := by
  refine h.invariant (P := fun x => 1 ≤ x.mSizeJump.toNat ∧ x.mSizeJump.toNat < 2 ^ 16) ?_ ?_
  · rintro x (rfl | ⟨win, -, rfl⟩)
    · decide
    · have hs : (ListIdx.ofWin win).mSizeJump = dDefaultSizeJump := (sanityCheck_same _).sizeJump
      rw [hs]
      decide
  · rintro x op y hx ⟨-, rfl⟩
    rcases apply_sizeJump x op with hs | ⟨size, rfl⟩
    · rw [hs]
      exact hx
    · exact sizeJumpSet_bounds x size

/-! ## The results -/

/-- With a window, every move goes as far as its name says, or to the end of the list, and its
result is whether cursor or offset changed. An empty list has its cursor at `0`. -/
theorem navigation_exact (h : x.Reached) (hw : 1 ≤ x.mWin.toNat) :
    Lands x x.inc (min (x.cursorAbs.toNat + 1) (x.mSize.toNat - 1)) ∧
    Lands x x.dec (x.cursorAbs.toNat - 1) ∧
    Lands x x.incJump (min (x.cursorAbs.toNat + x.mSizeJump.toNat) (x.mSize.toNat - 1)) ∧
    Lands x x.decJump (x.cursorAbs.toNat - x.mSizeJump.toNat) ∧
    Lands x x.reset 0 ∧ Lands x x.cursorEndSet (x.mSize.toNat - 1) := by
  have hi := h.boundedInv.1
  obtain ⟨c, hc, hx⟩ := hi.refines hw
  have hstill : ∀ {y}, y = x → ¬ Changed x y := fun hy => not_changed (by rw [hy]) (by rw [hy])
  rw [hx.pos_eq, ← hc]
  refine ⟨hx.lands (inc_refines hx) fun hf => hstill (inc_unmoved hf),
    hx.lands (dec_refines hx) fun hf => hstill (dec_unmoved hf),
    hx.lands (jumpLoop_inc_refines _ false hx) fun hf => hstill ?_,
    hx.lands (jumpLoop_dec_refines _ false hx) fun hf => hstill ?_,
    hx.lands (reset_refines hx) reset_unmoved,
    hx.lands (cursorEndSet_refines hx) (cursorEndSet_unmoved hi)⟩
  · exact (jumpLoop_unmoved inc_unmoved _ hf).1
  · exact (jumpLoop_unmoved dec_unmoved _ hf).1

/-- Text mode, a list of seven items in a window of three, jumps of four: the second jump ends on
the last item. -/
theorem navigation_exact_text :
    Lands
      (((((ofWin 3).apply (.sizeSet 7)).apply .textModeSet).apply (.sizeJumpSet 4)).apply .incJump)
      (((((ofWin 3).apply (.sizeSet 7)).apply .textModeSet).apply
        (.sizeJumpSet 4)).apply .incJump).incJump 6 :=
  (navigation_exact
    (((((Reached.ofWin 3 (by decide)).apply (.sizeSet 7)
      (show (7 : UInt32).toNat < 2 ^ 30 by decide)).apply .textModeSet trivial).apply
        (.sizeJumpSet 4) trivial).apply .incJump trivial)
    (by decide)).2.2.1

/-- The first half of what a text box relies on: `insert` takes the cursor along. -/
theorem insert_cursor (hi : x.RepInv) (hw : 0 < x.mWin.toNat) (hs : 0 < x.mSize.toNat)
    (hlt : x.mSize.toNat + 1 < 2 ^ 32) :
    ∃ d : ListCursor, x.insert.Refines d ∧ d.size = x.mSize.toNat + 1 ∧
      d.pos = x.cursorAbs.toNat + 1 := by
  obtain ⟨c, hc, hx⟩ := hi.refines hw
  have hin := hi.cursorAbs_lt hw hs
  refine ⟨_, insert_refines hx, ?_, ?_⟩
  · rw [ListCursor.next_size, ListCursor.resize_size, hc, Nat.mod_eq_of_lt hlt]
  · rw [ListCursor.next_pos, ListCursor.resize_pos, ListCursor.resize_size, hc,
      Nat.mod_eq_of_lt hlt, ← hx.pos_eq]
    omega

/-- `prevErase` removes the item before the cursor, which goes back with its own. -/
theorem prevErase_cursor (hx : x.Refines c) (hpos : 0 < c.pos) :
    x.prevErase.1.mSize.toNat = c.size - 1 ∧ x.prevErase.1.cursorAbs.toNat = c.pos - 1 := by
  have hr := (prevErase_refines hx).1
  have hin := c.inRange
  rw [if_neg (Nat.ne_of_gt hpos)] at hr
  refine ⟨hr.size_eq, hr.pos_eq.trans ?_⟩
  show min (c.pos - 1) (c.size - 1 - 1) = _
  omega

/-- With a window and a list, inserting and erasing change the size by one and keep the cursor on
its item, on the successor of an erased one, or on the new last one. -/
theorem editing_exact (h : x.Reached) (hw : 1 ≤ x.mWin.toNat) (hs : 1 ≤ x.mSize.toNat) :
    (x.insert.mSize.toNat = x.mSize.toNat + 1 ∧
      x.insert.cursorAbs.toNat = x.cursorAbs.toNat + 1) ∧
    (x.currErase.1.mSize.toNat = x.mSize.toNat - 1 ∧
      x.currErase.1.cursorAbs.toNat = min x.cursorAbs.toNat (x.mSize.toNat - 2)) ∧
    (0 < x.cursorAbs.toNat → x.prevErase.1.mSize.toNat = x.mSize.toNat - 1 ∧
      x.prevErase.1.cursorAbs.toNat = x.cursorAbs.toNat - 1) ∧
    (x.cursorAbs.toNat = 0 → x.prevErase = (x, false)) ∧
    (x.insert.prevErase.1.mSize = x.mSize ∧ x.insert.prevErase.1.cursorAbs = x.cursorAbs) := by
  obtain ⟨hi, -, hlt⟩ := h.boundedInv
  obtain ⟨c, hc, hx⟩ := hi.refines hw
  obtain ⟨d, hd, hdsize, hdpos⟩ := insert_cursor hi hw hs (by omega)
  have hcurr := (currErase_refines hx).1
  have hback := prevErase_cursor hd (by omega)
  refine ⟨⟨hd.size_eq.trans hdsize, hd.pos_eq.trans hdpos⟩, ⟨?_, ?_⟩, ?_, ?_, ?_, ?_⟩
  · rw [← hc]
    exact hcurr.size_eq
  · rw [← hc, hx.pos_eq]
    exact hcurr.pos_eq
  · intro hpos
    rw [hx.pos_eq] at hpos ⊢
    rw [← hc]
    exact prevErase_cursor hx hpos
  · intro hpos
    rw [prevErase, if_pos (toNat_eq_zero.mpr hpos)]
  · rw [← UInt32.toNat_inj, hback.1, hdsize]
    omega
  · rw [← UInt32.toNat_inj, hback.2, hdpos]
    omega

/-- A list of four items in a window of two, at its end. -/
theorem editing_exact_end :
    (((ofWin 2).apply (.sizeSet 4)).apply .cursorEndSet).currErase.1.cursorAbs.toNat =
      min (((ofWin 2).apply (.sizeSet 4)).apply .cursorEndSet).cursorAbs.toNat (4 - 2) ∧
    (((ofWin 2).apply (.sizeSet 4)).apply .cursorEndSet).insert.prevErase.1.cursorAbs =
      (((ofWin 2).apply (.sizeSet 4)).apply .cursorEndSet).cursorAbs :=
  have h := editing_exact (((Reached.ofWin 2 (by decide)).apply (.sizeSet 4)
    (show (4 : UInt32).toNat < 2 ^ 30 by decide)).apply .cursorEndSet trivial)
    (by decide) (by decide)
  ⟨h.2.1.2, h.2.2.2.2.2⟩

end ListIdx
end ProcessingCommon
