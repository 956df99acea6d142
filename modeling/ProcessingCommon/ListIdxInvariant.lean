import ProcessingCommon.Lib.Transition
import ProcessingCommon.ListIdx

/-!
# The representation invariant of `ListIdx`

Every public operation keeps cursor, offset and bounds inside window and list.
The only step that can overflow is `sanityCheck` with an offset and a window
whose sum leaves `uint32_t`; the runs below stay away from it.
-/

namespace ProcessingCommon
namespace ListIdx

/-- Cursor, offset and soft bounds fit window and list. -/
structure RepInv (x : ListIdx) : Prop where
  cursor_zero : x.mWin = 0 ∨ x.mSize = 0 → x.mCursor = 0
  cursor_lt : x.mWin ≠ 0 → x.mSize ≠ 0 → x.mCursor.toNat < min x.mWin.toNat x.mSize.toNat
  offset_le : x.mOffset = 0 ∨ x.mOffset.toNat + x.mWin.toNat ≤ x.mSize.toNat
  lbound_lt : x.mCursorLbound.toNat < max x.mWin.toNat 1
  ubound_lt : x.mCursorUbound.toNat < max x.mWin.toNat 1

/-! ## Arithmetic -/

theorem toNat_eq_zero {a : UInt32} : a = 0 ↔ a.toNat = 0 := by
  rw [← UInt32.toNat_inj]; rfl

attribute [local simp] UInt32.lt_iff_toNat_lt UInt32.le_iff_toNat_le
  UInt32.toNat_add UInt32.toNat_sub

/-- The two cases of the cursor in one bound. -/
theorem cursor_cases {x : ListIdx} :
    ((x.mWin = 0 ∨ x.mSize = 0 → x.mCursor = 0) ∧
      (x.mWin ≠ 0 → x.mSize ≠ 0 → x.mCursor.toNat < min x.mWin.toNat x.mSize.toNat)) ↔
    x.mCursor.toNat < max (min x.mWin.toNat x.mSize.toNat) 1 := by
  simp only [ne_eq, toNat_eq_zero]
  omega

theorem RepInv.cursor_lt_max {x : ListIdx} (h : x.RepInv) :
    x.mCursor.toNat < max (min x.mWin.toNat x.mSize.toNat) 1 :=
  cursor_cases.mp ⟨h.cursor_zero, h.cursor_lt⟩

theorem RepInv.of_nat {x : ListIdx}
    (hc : x.mCursor.toNat < max (min x.mWin.toNat x.mSize.toNat) 1)
    (ho : x.mOffset = 0 ∨ x.mOffset.toNat + x.mWin.toNat ≤ x.mSize.toNat)
    (hl : x.mCursorLbound.toNat < max x.mWin.toNat 1)
    (hu : x.mCursorUbound.toNat < max x.mWin.toNat 1) : x.RepInv :=
  ⟨(cursor_cases.mpr hc).1, (cursor_cases.mpr hc).2, ho, hl, hu⟩

theorem RepInv.offset_le_size {x : ListIdx} (h : x.RepInv) :
    x.mOffset.toNat ≤ x.mSize.toNat := by
  have := h.offset_le
  rw [toNat_eq_zero] at this
  omega

theorem hardUbound_toNat {x : ListIdx} (hw : x.mWin ≠ 0) (hs : x.mSize ≠ 0) :
    x.hardUbound.toNat = min x.mWin.toNat x.mSize.toNat - 1 := by
  rw [Ne, toNat_eq_zero] at hw hs
  have := x.mWin.toNat_lt
  have := x.mSize.toNat_lt
  unfold hardUbound
  split <;> simp_all <;> omega

/-- With the invariant, `cursorAbs` does not wrap. -/
theorem RepInv.cursorAbs_toNat {x : ListIdx} (h : x.RepInv) :
    x.cursorAbs.toNat = x.mOffset.toNat + x.mCursor.toNat := by
  have hc := h.cursor_lt_max
  have ho := h.offset_le
  rw [toNat_eq_zero] at ho
  have := x.mWin.toNat_lt
  have := x.mSize.toNat_lt
  simp only [cursorAbs, UInt32.toNat_add]
  omega

/-- With the invariant, `endReached` does not wrap either. -/
theorem RepInv.endReached_iff {x : ListIdx} (h : x.RepInv) :
    x.endReached = true ↔ x.mSize.toNat ≤ x.mOffset.toNat + x.mWin.toNat := by
  have ho := h.offset_le
  rw [toNat_eq_zero] at ho
  have := x.mWin.toNat_lt
  have := x.mSize.toNat_lt
  simp [endReached]
  omega

/-- Callers may use `cursorAbs` to access the list. -/
theorem RepInv.cursorAbs_lt {x : ListIdx} (h : x.RepInv) (hw : 0 < x.mWin.toNat)
    (hs : 0 < x.mSize.toNat) : x.cursorAbs.toNat < x.mSize.toNat := by
  have hc := h.cursor_lt_max
  have ho := h.offset_le
  rw [toNat_eq_zero] at ho
  rw [h.cursorAbs_toNat]
  omega

/-! ## `sanityCheck` and the setters -/

/-- Everything but cursor and offset. -/
structure SameList (x y : ListIdx) : Prop where
  win : y.mWin = x.mWin
  size : y.mSize = x.mSize
  sizeJump : y.mSizeJump = x.mSizeJump
  lbound : y.mCursorLbound = x.mCursorLbound
  ubound : y.mCursorUbound = x.mCursorUbound

theorem SameList.refl (x : ListIdx) : SameList x x := ⟨rfl, rfl, rfl, rfl, rfl⟩

theorem SameList.trans {x y z : ListIdx} (h : SameList x y) (h' : SameList y z) : SameList x z :=
  ⟨h'.win.trans h.win, h'.size.trans h.size, h'.sizeJump.trans h.sizeJump,
    h'.lbound.trans h.lbound, h'.ubound.trans h.ubound⟩

theorem offsetCheck_same (x : ListIdx) : SameList x x.offsetCheck := by
  unfold offsetCheck
  split <;> exact ⟨rfl, rfl, rfl, rfl, rfl⟩

theorem cursorCheck_same (x : ListIdx) : SameList x x.cursorCheck := ⟨rfl, rfl, rfl, rfl, rfl⟩

theorem sanityCheck_same (x : ListIdx) : SameList x x.sanityCheck :=
  (offsetCheck_same x).trans (cursorCheck_same _)

/-- `cursorCheck` cuts the cursor to the last visible item. -/
theorem cursorCheck_cursor (x : ListIdx) :
    x.cursorCheck.mCursor.toNat =
      min x.mCursor.toNat (max (min x.mWin.toNat x.mSize.toNat) 1 - 1) := by
  simp only [cursorCheck, gt_iff_lt, UInt32.lt_iff_toNat_lt]
  split
  · next h =>
    have hh := hardUbound_toNat h.1 h.2
    rw [ne_eq, ne_eq, toNat_eq_zero, toNat_eq_zero] at h
    split <;> omega
  · next h =>
    rw [ne_eq, ne_eq, toNat_eq_zero, toNat_eq_zero] at h
    split <;> (simp_all; try omega)

/-- Offset and cursor after a `sanityCheck` whose sums do not wrap: the view either stays, or is
pulled back to the end of the list. -/
theorem sanityCheck_offset_cursor (x : ListIdx) (hov : x.mOffset.toNat + x.mWin.toNat < 2 ^ 32)
    (hcur : x.mCursor.toNat + (x.mOffset.toNat + x.mWin.toNat - x.mSize.toNat) < 2 ^ 32) :
    (x.mOffset.toNat = 0 ∨ x.mOffset.toNat + x.mWin.toNat ≤ x.mSize.toNat) ∧
        x.sanityCheck.mOffset = x.mOffset ∧
        x.sanityCheck.mCursor.toNat =
          min x.mCursor.toNat (max (min x.mWin.toNat x.mSize.toNat) 1 - 1) ∨
      (x.mOffset.toNat ≠ 0 ∧ x.mSize.toNat < x.mOffset.toNat + x.mWin.toNat) ∧
        x.sanityCheck.mOffset.toNat = x.mSize.toNat - x.mWin.toNat ∧
        x.sanityCheck.mCursor.toNat =
          min (x.mCursor.toNat + (x.mOffset.toNat + x.mWin.toNat - x.mSize.toNat))
            (max (min x.mWin.toNat x.mSize.toNat) 1 - 1) := by
  have hoff : x.sanityCheck.mOffset = x.offsetCheck.mOffset := rfl
  have hsum : (x.mOffset + x.mWin).toNat = x.mOffset.toNat + x.mWin.toNat := by
    rw [UInt32.toNat_add, Nat.mod_eq_of_lt hov]
  rw [hoff, sanityCheck, cursorCheck_cursor, (offsetCheck_same x).win, (offsetCheck_same x).size]
  simp only [offsetCheck, ne_eq, toNat_eq_zero, gt_iff_lt, UInt32.lt_iff_toNat_lt, hsum]
  split
  · next h1 =>
    have hover : (x.mOffset + x.mWin - x.mSize).toNat =
        x.mOffset.toNat + x.mWin.toNat - x.mSize.toNat := by
      rw [UInt32.toNat_sub_of_le _ _ (UInt32.le_iff_toNat_le.mpr (by omega)), hsum]
    refine .inr ⟨h1, ?_, ?_⟩
    · dsimp only
      split
      · next hlt =>
        rw [UInt32.toNat_sub_of_le _ _ (UInt32.le_iff_toNat_le.mpr (Nat.le_of_lt hlt))]
      · next hlt => rw [UInt32.toNat_zero, Nat.sub_eq_zero_of_le (Nat.not_lt.mp hlt)]
    · dsimp only
      rw [UInt32.toNat_add, hover, Nat.mod_eq_of_lt hcur]
  · next h1 =>
    exact .inl ⟨by omega, rfl, rfl⟩

/-- After `offsetCheck` the view does not end behind the list. -/
theorem offsetCheck_offset {x : ListIdx} (hov : x.mOffset.toNat + x.mWin.toNat < 2 ^ 32) :
    x.offsetCheck.mOffset = 0 ∨
      x.offsetCheck.mOffset.toNat + x.offsetCheck.mWin.toNat ≤ x.offsetCheck.mSize.toNat := by
  have := x.mWin.toNat_lt
  have := x.mSize.toNat_lt
  simp only [toNat_eq_zero]
  unfold offsetCheck
  split
  · next h =>
    simp [toNat_eq_zero] at h
    simp only [gt_iff_lt, UInt32.lt_iff_toNat_lt]
    split
    · right; simp; omega
    · left; rfl
  · next h =>
    simp [toNat_eq_zero] at h
    omega

theorem sanityCheck_cursor_lt (x : ListIdx) :
    x.sanityCheck.mCursor.toNat <
      max (min x.sanityCheck.mWin.toNat x.sanityCheck.mSize.toNat) 1 := by
  have hc := cursorCheck_cursor x.offsetCheck
  have hs := cursorCheck_same x.offsetCheck
  rw [← hs.win, ← hs.size] at hc
  simp only [sanityCheck]
  omega

theorem sanityCheck_offset_le {x : ListIdx} (hov : x.mOffset.toNat + x.mWin.toNat < 2 ^ 32) :
    x.sanityCheck.mOffset = 0 ∨
      x.sanityCheck.mOffset.toNat + x.sanityCheck.mWin.toNat ≤ x.sanityCheck.mSize.toNat := by
  simpa only [sanityCheck, cursorCheck] using offsetCheck_offset hov

theorem boundCut_lt (x : ListIdx) (bnd : UInt32) : (x.boundCut bnd).toNat < max x.mWin.toNat 1 := by
  have := x.mWin.toNat_lt
  unfold boundCut
  split
  · next h => simp at h; omega
  · split
    · next h => simp [toNat_eq_zero] at h ⊢; omega
    · simp only [UInt32.toNat_zero]; omega

theorem cursorLboundSet_repInv {x : ListIdx} (h : x.RepInv) (bnd : UInt32) :
    (x.cursorLboundSet bnd).RepInv :=
  ⟨h.cursor_zero, h.cursor_lt, h.offset_le, boundCut_lt x bnd, h.ubound_lt⟩

theorem cursorUboundSet_repInv {x : ListIdx} (h : x.RepInv) (bnd : UInt32) :
    (x.cursorUboundSet bnd).RepInv :=
  ⟨h.cursor_zero, h.cursor_lt, h.offset_le, h.lbound_lt, boundCut_lt x bnd⟩

theorem cursorBoundSet_repInv {x : ListIdx} (h : x.RepInv) (bnd : UInt32) :
    (x.cursorBoundSet bnd).RepInv := by
  unfold cursorBoundSet
  split
  · exact h
  · exact cursorUboundSet_repInv (cursorLboundSet_repInv h _) _

theorem textModeSet_repInv {x : ListIdx} (h : x.RepInv) : x.textModeSet.RepInv :=
  cursorUboundSet_repInv (cursorLboundSet_repInv h _) _

theorem sizeJumpSet_repInv {x : ListIdx} (h : x.RepInv) (size : UInt16) :
    (x.sizeJumpSet size).RepInv :=
  ⟨h.cursor_zero, h.cursor_lt, h.offset_le, h.lbound_lt, h.ubound_lt⟩

theorem sizeSet_repInv {x : ListIdx} (h : x.RepInv) (size : UInt32) : (x.sizeSet size).RepInv := by
  have hs := sanityCheck_same { x with mSize := size }
  have ho := h.offset_le
  rw [toNat_eq_zero] at ho
  have := x.mWin.toNat_lt
  have := x.mSize.toNat_lt
  refine .of_nat (sanityCheck_cursor_lt _) (sanityCheck_offset_le ?_) ?_ ?_
  · dsimp only
    omega
  · simpa only [sizeSet, hs.lbound, hs.win] using h.lbound_lt
  · simpa only [sizeSet, hs.ubound, hs.win] using h.ubound_lt

/-- The bounds are set after `sanityCheck`, so a smaller window needs no more
than a sum that does not wrap. -/
theorem winSet_repInv {x : ListIdx} (h : x.RepInv) {win : UInt32}
    (hov : x.mSize.toNat + win.toNat < 2 ^ 32) : (x.winSet win).RepInv := by
  have ho := h.offset_le_size
  refine .of_nat (sanityCheck_cursor_lt { x with mWin := win })
    (sanityCheck_offset_le (x := { x with mWin := win }) ?_) (boundCut_lt _ _) (boundCut_lt _ _)
  dsimp only
  omega

/-! ## Moves -/

theorem reset_repInv {x : ListIdx} (h : x.RepInv) : x.reset.1.RepInv :=
  .of_nat (by simp only [reset, UInt32.toNat_zero]; omega) (.inl rfl) h.lbound_lt h.ubound_lt

theorem cursorEndSet_repInv {x : ListIdx} (h : x.RepInv) : x.cursorEndSet.1.RepInv := by
  unfold cursorEndSet
  split
  · exact h
  · next h0 =>
    rw [not_or] at h0
    have hh := hardUbound_toNat h0.1 h0.2
    rw [toNat_eq_zero, toNat_eq_zero] at h0
    refine .of_nat (by dsimp only; omega) ?_ h.lbound_lt h.ubound_lt
    have := x.mSize.toNat_lt
    dsimp only
    split
    · next hs => right; simp at hs ⊢; omega
    · exact .inl rfl

theorem incOffset_repInv {x : ListIdx} (h : x.RepInv) : x.incOffset.1.RepInv := by
  have he := h.endReached_iff
  unfold incOffset
  split
  · exact h
  · next hn =>
    rw [he] at hn
    exact .of_nat h.cursor_lt_max (by simp; omega) h.lbound_lt h.ubound_lt

theorem decOffset_repInv {x : ListIdx} (h : x.RepInv) : x.decOffset.1.RepInv := by
  have ho := h.offset_le
  unfold decOffset
  split
  · exact h
  · next hn =>
    rw [toNat_eq_zero] at hn ho
    exact .of_nat h.cursor_lt_max (by simp; omega) h.lbound_lt h.ubound_lt

theorem incCursor_repInv {x : ListIdx} (h : x.RepInv) : x.incCursor.1.RepInv := by
  have hc := h.cursor_lt_max
  unfold incCursor
  split
  · exact h
  · next h0 =>
    rw [not_or] at h0
    have hh := hardUbound_toNat h0.1 h0.2
    split
    · exact h
    · next hne =>
      rw [toNat_eq_zero, toNat_eq_zero] at h0
      rw [← UInt32.toNat_inj] at hne
      exact .of_nat (by simp; omega) h.offset_le h.lbound_lt h.ubound_lt

theorem decCursor_repInv {x : ListIdx} (h : x.RepInv) : x.decCursor.1.RepInv := by
  have hc := h.cursor_lt_max
  unfold decCursor
  split
  · exact h
  · next h0 =>
    rw [toNat_eq_zero] at h0
    exact .of_nat (by simp; omega) h.offset_le h.lbound_lt h.ubound_lt

theorem inc_repInv {x : ListIdx} (h : x.RepInv) : x.inc.1.RepInv := by
  have hc := h.cursor_lt_max
  have he := h.endReached_iff
  unfold inc
  split
  · exact h
  · next h0 =>
    rw [not_or] at h0
    have hh := hardUbound_toNat h0.1 h0.2
    split
    · next h1 =>
      rw [Bool.not_eq_true', Bool.eq_false_iff, ne_eq, he] at h1
      exact .of_nat hc (by simp; omega) h.lbound_lt h.ubound_lt
    · split
      · next h2 =>
        simp at h2
        rw [toNat_eq_zero, toNat_eq_zero] at h0
        exact .of_nat (by simp; omega) h.offset_le h.lbound_lt h.ubound_lt
      · exact h

theorem dec_repInv {x : ListIdx} (h : x.RepInv) : x.dec.1.RepInv := by
  have hc := h.cursor_lt_max
  have ho := h.offset_le
  unfold dec
  split
  · next h1 =>
    rw [ne_eq, toNat_eq_zero] at h1
    rw [toNat_eq_zero] at ho
    exact .of_nat hc (by simp; omega) h.lbound_lt h.ubound_lt
  · split
    · next h2 =>
      rw [ne_eq, toNat_eq_zero] at h2
      exact .of_nat (by simp; omega) h.offset_le h.lbound_lt h.ubound_lt
    · exact h

theorem jumpLoop_repInv {move : ListIdx → ListIdx × Bool}
    (hm : ∀ {x : ListIdx}, x.RepInv → (move x).1.RepInv) (n : Nat) {x : ListIdx} {b : Bool}
    (h : x.RepInv) : (jumpLoop move n (x, b)).1.RepInv := by
  induction n generalizing x b with
  | zero => exact h
  | succ n ih => exact ih (hm h)

/-! ## Change items -/

theorem insert_repInv {x : ListIdx} (h : x.RepInv) : x.insert.RepInv :=
  inc_repInv (sizeSet_repInv h _)

theorem currErase_repInv {x : ListIdx} (h : x.RepInv) : x.currErase.1.RepInv := by
  unfold currErase
  split
  · exact h
  · refine sizeSet_repInv ?_ _
    split
    · exact incCursor_repInv (decOffset_repInv h)
    · exact h

theorem prevErase_repInv {x : ListIdx} (h : x.RepInv) : x.prevErase.1.RepInv := by
  unfold prevErase
  split
  · exact h
  · refine sizeSet_repInv ?_ _
    split
    · exact decOffset_repInv h
    · exact dec_repInv h

/-- A key is one of the six moves, or nothing. -/
theorem keyProcess_cases {P : ListIdx × Bool → Prop} {x : ListIdx} (inc : P x.inc) (dec : P x.dec)
    (incJump : P x.incJump) (decJump : P x.decJump) (reset : P x.reset)
    (cursorEndSet : P x.cursorEndSet) (ignored : P (x, false)) (key : KeyUser)
    (dis : List Char32) : P (x.keyProcess key dis) := by
  unfold keyProcess
  extract_lets keyCmp keyCmp' disabled
  split_ifs <;> assumption

theorem keyProcess_repInv {x : ListIdx} (h : x.RepInv) (key : KeyUser) (dis : List Char32) :
    (x.keyProcess key dis).1.RepInv :=
  keyProcess_cases (P := fun r => r.1.RepInv) (inc_repInv h) (dec_repInv h)
    (jumpLoop_repInv inc_repInv _ h) (jumpLoop_repInv dec_repInv _ h) (reset_repInv h)
    (cursorEndSet_repInv h) h key dis

/-! ## What stays the same -/

theorem sizeSet_same (x : ListIdx) (size : UInt32) :
    SameList { x with mSize := size } (x.sizeSet size) :=
  sanityCheck_same _

@[simp] theorem sizeSet_mSize (x : ListIdx) (size : UInt32) : (x.sizeSet size).mSize = size :=
  (sizeSet_same x size).size

@[simp] theorem sizeSet_mWin (x : ListIdx) (size : UInt32) : (x.sizeSet size).mWin = x.mWin :=
  (sizeSet_same x size).win

@[simp] theorem winSet_mWin (x : ListIdx) (win : UInt32) : (x.winSet win).mWin = win :=
  (sanityCheck_same { x with mWin := win }).win

@[simp] theorem winSet_mSize (x : ListIdx) (win : UInt32) : (x.winSet win).mSize = x.mSize :=
  (sanityCheck_same { x with mWin := win }).size

theorem cursorBoundSet_frame (x : ListIdx) (bnd : UInt32) :
    (x.cursorBoundSet bnd).mWin = x.mWin ∧ (x.cursorBoundSet bnd).mSize = x.mSize := by
  unfold cursorBoundSet
  split <;> exact ⟨rfl, rfl⟩

theorem reset_same (x : ListIdx) : SameList x x.reset.1 := ⟨rfl, rfl, rfl, rfl, rfl⟩

theorem cursorEndSet_same (x : ListIdx) : SameList x x.cursorEndSet.1 := by
  unfold cursorEndSet
  split <;> exact ⟨rfl, rfl, rfl, rfl, rfl⟩

theorem incOffset_same (x : ListIdx) : SameList x x.incOffset.1 := by
  unfold incOffset
  split <;> exact ⟨rfl, rfl, rfl, rfl, rfl⟩

theorem decOffset_same (x : ListIdx) : SameList x x.decOffset.1 := by
  unfold decOffset
  split <;> exact ⟨rfl, rfl, rfl, rfl, rfl⟩

theorem incCursor_same (x : ListIdx) : SameList x x.incCursor.1 := by
  unfold incCursor
  split_ifs <;> exact ⟨rfl, rfl, rfl, rfl, rfl⟩

theorem decCursor_same (x : ListIdx) : SameList x x.decCursor.1 := by
  unfold decCursor
  split <;> exact ⟨rfl, rfl, rfl, rfl, rfl⟩

theorem inc_same (x : ListIdx) : SameList x x.inc.1 := by
  unfold inc
  split_ifs <;> exact ⟨rfl, rfl, rfl, rfl, rfl⟩

theorem dec_same (x : ListIdx) : SameList x x.dec.1 := by
  unfold dec
  split_ifs <;> exact ⟨rfl, rfl, rfl, rfl, rfl⟩

theorem jumpLoop_same {move : ListIdx → ListIdx × Bool} (hm : ∀ x, SameList x (move x).1)
    (n : Nat) (x : ListIdx) (b : Bool) : SameList x (jumpLoop move n (x, b)).1 := by
  induction n generalizing x b with
  | zero => exact .refl x
  | succ n ih => exact (hm x).trans (ih _ _)

theorem keyProcess_same (x : ListIdx) (key : KeyUser) (dis : List Char32) :
    SameList x (x.keyProcess key dis).1 :=
  keyProcess_cases (P := fun r => SameList x r.1) (inc_same x) (dec_same x)
    (jumpLoop_same inc_same _ x _) (jumpLoop_same dec_same _ x _) (reset_same x)
    (cursorEndSet_same x) (.refl x) key dis

theorem insert_frame (x : ListIdx) : x.insert.mWin = x.mWin ∧ x.insert.mSize = x.mSize + 1 := by
  have h := inc_same (x.sizeSet (x.mSize + 1))
  exact ⟨h.win.trans (sizeSet_mWin _ _), h.size.trans (sizeSet_mSize _ _)⟩

theorem currErase_frame (x : ListIdx) :
    x.currErase.1.mWin = x.mWin ∧
      x.currErase.1.mSize = if x.mSize = 0 then x.mSize else x.mSize - 1 := by
  have hd := (decOffset_same x).trans (incCursor_same _)
  unfold currErase
  split
  · exact ⟨rfl, rfl⟩
  · split <;> simp [hd.win, hd.size]

theorem prevErase_frame (x : ListIdx) :
    x.prevErase.1.mWin = x.mWin ∧
      x.prevErase.1.mSize = if x.cursorAbs = 0 then x.mSize else x.mSize - 1 := by
  unfold prevErase
  split
  · exact ⟨rfl, rfl⟩
  · split <;> simp [(decOffset_same x).win, (decOffset_same x).size, (dec_same x).win,
      (dec_same x).size]

theorem insert_sizeJump (x : ListIdx) : x.insert.mSizeJump = x.mSizeJump :=
  (inc_same _).sizeJump.trans (sizeSet_same x _).sizeJump

theorem currErase_sizeJump (x : ListIdx) : x.currErase.1.mSizeJump = x.mSizeJump := by
  have hd := (decOffset_same x).trans (incCursor_same _)
  unfold currErase
  split
  · rfl
  · refine (sizeSet_same _ _).sizeJump.trans ?_
    dsimp only
    split
    · exact hd.sizeJump
    · rfl

theorem prevErase_sizeJump (x : ListIdx) : x.prevErase.1.mSizeJump = x.mSizeJump := by
  unfold prevErase
  split
  · rfl
  · refine (sizeSet_same _ _).sizeJump.trans ?_
    dsimp only
    split
    · exact (decOffset_same x).sizeJump
    · exact (dec_same x).sizeJump

/-! ## Runs -/

/-- The public operations that change the index. -/
inductive Op
  | winSet (win : UInt32)
  | sizeSet (size : UInt32)
  | assign (size : UInt32)
  | sizeJumpSet (size : UInt16)
  | cursorLboundSet (bnd : UInt32)
  | cursorUboundSet (bnd : UInt32)
  | cursorBoundSet (bnd : UInt32)
  | textModeSet
  | keyProcess (key : KeyUser) (listKeysDisabled : List Char32)
  | reset
  | cursorEndSet
  | incOffset
  | decOffset
  | incCursor
  | decCursor
  | inc
  | dec
  | incJump
  | decJump
  | insert
  | grow
  | growBy (num : UInt32)
  | currErase
  | prevErase
  | shrink
  | shrinkBy (num : UInt32)

def apply (x : ListIdx) : Op → ListIdx
  | .winSet win => x.winSet win
  | .sizeSet size => x.sizeSet size
  | .assign size => x.assign size
  | .sizeJumpSet size => x.sizeJumpSet size
  | .cursorLboundSet bnd => x.cursorLboundSet bnd
  | .cursorUboundSet bnd => x.cursorUboundSet bnd
  | .cursorBoundSet bnd => x.cursorBoundSet bnd
  | .textModeSet => x.textModeSet
  | .keyProcess key dis => (x.keyProcess key dis).1
  | .reset => x.reset.1
  | .cursorEndSet => x.cursorEndSet.1
  | .incOffset => x.incOffset.1
  | .decOffset => x.decOffset.1
  | .incCursor => x.incCursor.1
  | .decCursor => x.decCursor.1
  | .inc => x.inc.1
  | .dec => x.dec.1
  | .incJump => x.incJump.1
  | .decJump => x.decJump.1
  | .insert => x.insert
  | .grow => x.grow
  | .growBy num => x.growBy num
  | .currErase => x.currErase.1
  | .prevErase => x.prevErase.1
  | .shrink => x.shrink
  | .shrinkBy num => x.shrinkBy num

/-- The argument keeps window and size below `2 ^ 30`. -/
def Below (x : ListIdx) : Op → Prop
  | .winSet win => win.toNat < 2 ^ 30
  | .sizeSet size | .assign size => size.toNat < 2 ^ 30
  | .insert | .grow => x.mSize.toNat + 1 < 2 ^ 30
  | .growBy num => x.mSize.toNat + num.toNat < 2 ^ 30
  | _ => True

/-- Both constructors. -/
def Constructed (x : ListIdx) : Prop := x = {} ∨ ∃ win : UInt32, win.toNat < 2 ^ 30 ∧ x = ofWin win

/-- The states of the runs of public operations. -/
def Reached : ListIdx → Prop :=
  Transition.Reachable Constructed (Transition.guarded Below (Transition.ofFun apply))

theorem Reached.ofWin (win : UInt32) (h : win.toNat < 2 ^ 30) : Reached (ofWin win) :=
  .start (.inr ⟨win, h, rfl⟩)

theorem Reached.apply {x : ListIdx} (h : Reached x) (op : Op) (hop : x.Below op) :
    Reached (x.apply op) :=
  Transition.Reachable.apply op h hop

/-- The invariant with the bounds of the run. -/
def BoundedInv (x : ListIdx) : Prop :=
  x.RepInv ∧ x.mWin.toNat < 2 ^ 30 ∧ x.mSize.toNat < 2 ^ 30

theorem empty_repInv : RepInv {} := by
  constructor <;> simp

theorem constructed_boundedInv {x : ListIdx} (h : Constructed x) : x.BoundedInv := by
  rcases h with rfl | ⟨win, hw, rfl⟩
  · exact ⟨empty_repInv, by decide, by decide⟩
  · refine ⟨winSet_repInv empty_repInv ?_, ?_, ?_⟩
    · simp only [UInt32.toNat_zero]
      omega
    · simpa [ofWin] using hw
    · simp [ofWin]

/-- An operation that keeps list and window keeps the bounds. -/
theorem BoundedInv.of_same {x y : ListIdx} (h : x.BoundedInv) (hr : y.RepInv)
    (hs : SameList x y) : y.BoundedInv :=
  ⟨hr, by rw [hs.win]; exact h.2.1, by rw [hs.size]; exact h.2.2⟩

theorem BoundedInv.sizeSet {x : ListIdx} (h : x.BoundedInv) {size : UInt32}
    (hs : size.toNat < 2 ^ 30) : (x.sizeSet size).BoundedInv :=
  ⟨sizeSet_repInv h.1 size, by rw [sizeSet_mWin]; exact h.2.1, by rw [sizeSet_mSize]; exact hs⟩

/-- One item less keeps the bounds, as long as there is one. -/
theorem BoundedInv.erased {x y : ListIdx} (h : x.BoundedInv) (hr : y.RepInv)
    (hw : y.mWin = x.mWin) {kept : Prop} [Decidable kept]
    (hs : y.mSize = if kept then x.mSize else x.mSize - 1) (hpos : ¬kept → 0 < x.mSize.toNat) :
    y.BoundedInv := by
  refine ⟨hr, by rw [hw]; exact h.2.1, ?_⟩
  have hlt := h.2.2
  rw [hs]
  split
  · exact hlt
  · next hkept =>
    have := hpos hkept
    rw [UInt32.toNat_sub, UInt32.toNat_one]
    omega

theorem BoundedInv.insert {x : ListIdx} (h : x.BoundedInv) (hs : x.mSize.toNat + 1 < 2 ^ 30) :
    x.insert.BoundedInv := by
  have hf := insert_frame x
  refine ⟨insert_repInv h.1, by rw [hf.1]; exact h.2.1, ?_⟩
  rw [hf.2, UInt32.toNat_add, UInt32.toNat_one]
  omega

theorem BoundedInv.currErase {x : ListIdx} (h : x.BoundedInv) : x.currErase.1.BoundedInv :=
  h.erased (currErase_repInv h.1) (currErase_frame x).1 (currErase_frame x).2
    fun hne => Nat.pos_of_ne_zero fun h0 => hne (toNat_eq_zero.mpr h0)

theorem BoundedInv.prevErase {x : ListIdx} (h : x.BoundedInv) : x.prevErase.1.BoundedInv := by
  refine h.erased (prevErase_repInv h.1) (prevErase_frame x).1 (prevErase_frame x).2 fun hne => ?_
  have hz := h.1.cursorAbs_toNat
  have hc := h.1.cursor_lt_max
  have ho := h.1.offset_le_size
  rw [toNat_eq_zero] at hne
  omega

theorem apply_boundedInv {x : ListIdx} (h : x.BoundedInv) {op : Op} (hop : x.Below op) :
    (x.apply op).BoundedInv := by
  have hx := h
  obtain ⟨hr, hw, hs⟩ := h
  cases op with
  | winSet win =>
    simp only [Below] at hop
    exact ⟨winSet_repInv hr (by omega), by simpa [apply] using hop, by simpa [apply] using hs⟩
  | sizeSet size | assign size => exact hx.sizeSet hop
  | sizeJumpSet size => exact ⟨sizeJumpSet_repInv hr size, hw, hs⟩
  | cursorLboundSet bnd => exact ⟨cursorLboundSet_repInv hr bnd, hw, hs⟩
  | cursorUboundSet bnd => exact ⟨cursorUboundSet_repInv hr bnd, hw, hs⟩
  | cursorBoundSet bnd =>
    have hf := cursorBoundSet_frame x bnd
    exact ⟨cursorBoundSet_repInv hr bnd, by simpa [apply, hf.1] using hw,
      by simpa [apply, hf.2] using hs⟩
  | textModeSet => exact ⟨textModeSet_repInv hr, hw, hs⟩
  | keyProcess key dis => exact hx.of_same (keyProcess_repInv hr key dis) (keyProcess_same x key dis)
  | reset => exact hx.of_same (reset_repInv hr) (reset_same x)
  | cursorEndSet => exact hx.of_same (cursorEndSet_repInv hr) (cursorEndSet_same x)
  | incOffset => exact hx.of_same (incOffset_repInv hr) (incOffset_same x)
  | decOffset => exact hx.of_same (decOffset_repInv hr) (decOffset_same x)
  | incCursor => exact hx.of_same (incCursor_repInv hr) (incCursor_same x)
  | decCursor => exact hx.of_same (decCursor_repInv hr) (decCursor_same x)
  | inc => exact hx.of_same (inc_repInv hr) (inc_same x)
  | dec => exact hx.of_same (dec_repInv hr) (dec_same x)
  | incJump => exact hx.of_same (jumpLoop_repInv inc_repInv _ hr) (jumpLoop_same inc_same _ x _)
  | decJump => exact hx.of_same (jumpLoop_repInv dec_repInv _ hr) (jumpLoop_same dec_same _ x _)
  | insert => exact hx.insert hop
  | grow =>
    refine hx.sizeSet ?_
    simp only [Below] at hop
    simp only [UInt32.toNat_add, UInt32.toNat_one]
    omega
  | growBy num =>
    refine hx.sizeSet ?_
    simp only [Below] at hop
    simp only [UInt32.toNat_add]
    omega
  | currErase => exact hx.currErase
  | prevErase => exact hx.prevErase
  | shrink =>
    simp only [apply, shrink]
    split
    · exact hx
    · next h0 =>
      rw [toNat_eq_zero] at h0
      exact hx.sizeSet (by simp; omega)
  | shrinkBy num =>
    refine hx.sizeSet ?_
    simp only [UInt32.toNat_sub]
    split
    · omega
    · next hn => simp at hn; omega

theorem Reached.boundedInv {x : ListIdx} (h : Reached x) : x.BoundedInv :=
  h.invariant (fun _ => constructed_boundedInv)
    (fun s op t hs ht => by
      obtain ⟨hok, rfl⟩ := ht
      exact apply_boundedInv hs hok)

/-- From either constructor, after every sequence of public operations, cursor,
offset and bounds fit, and `cursorAbs` is an item whenever there is one to show. -/
theorem reached_repInv {x : ListIdx} (h : Reached x) :
    x.RepInv ∧ (0 < x.mWin → 0 < x.mSize → x.cursorAbs < x.mSize) := by
  have hb := h.boundedInv
  refine ⟨hb.1, fun hw hs => ?_⟩
  simp only [UInt32.lt_iff_toNat_lt] at *
  exact hb.1.cursorAbs_lt hw hs

/-- A list of three items in a window of two, scrolled to its end. -/
theorem reached_repInv_scrolled :
    (((ofWin 2).apply (.sizeSet 3)).apply .cursorEndSet).RepInv ∧
    ((((ofWin 2).apply (.sizeSet 3)).apply .cursorEndSet).cursorAbs <
      (((ofWin 2).apply (.sizeSet 3)).apply .cursorEndSet).mSize) :=
  have h := ((Reached.ofWin 2 (by decide)).apply (.sizeSet 3)
    (show (3 : UInt32).toNat < 2 ^ 30 by decide)).apply .cursorEndSet trivial
  ⟨(reached_repInv h).1, (reached_repInv h).2 (by decide) (by decide)⟩

end ListIdx
end ProcessingCommon
