import Mathlib.Logic.Function.Iterate
import ProcessingCommon.ListIdxInvariant

/-!
# A `ListIdx` over the positions of a text

A text of `n` items has `n + 1` positions. An index that counts them and has its
cursor on one of them is what every insert and erase needs. With a window the
representation invariant says so already; without one (`mWin = 0`) nothing but the
offset is left of the cursor, and it has to be looked at by hand.
-/

namespace ProcessingCommon
namespace ListIdx

/-- `y` is `x` after moves of the cursor. A view without window scrolls back only. -/
structure Moved (x y : ListIdx) : Prop where
  inv : x.RepInv → y.RepInv
  same : SameList x y
  offset_le : x.mWin = 0 → y.mOffset.toNat ≤ x.mOffset.toNat

variable {x y z : ListIdx} {n : Nat}

theorem Moved.refl (x : ListIdx) : Moved x x := ⟨id, .refl x, fun _ => Nat.le_refl _⟩

theorem Moved.trans (h : Moved x y) (h' : Moved y z) : Moved x z where
  inv := h'.inv ∘ h.inv
  same := h.same.trans h'.same
  offset_le hw := Nat.le_trans (h'.offset_le (h.same.win.trans hw)) (h.offset_le hw)

theorem reset_moved (x : ListIdx) : Moved x x.reset.1 :=
  ⟨reset_repInv, reset_same x, fun _ => Nat.zero_le _⟩

theorem cursorEndSet_moved (x : ListIdx) : Moved x x.cursorEndSet.1 where
  inv := cursorEndSet_repInv
  same := cursorEndSet_same x
  offset_le hw := Nat.le_of_eq (by rw [cursorEndSet, if_pos (.inl hw)])

theorem inc_moved (x : ListIdx) : Moved x x.inc.1 where
  inv := inc_repInv
  same := inc_same x
  offset_le hw := Nat.le_of_eq (by rw [inc, if_pos (.inl hw)])

theorem dec_moved (x : ListIdx) : Moved x x.dec.1 where
  inv := dec_repInv
  same := dec_same x
  offset_le _ := by
    have := x.mOffset.toNat_lt
    unfold dec
    split
    · next h =>
      rw [ne_eq, toNat_eq_zero] at h
      simp only [UInt32.toNat_sub, UInt32.toNat_one]
      omega
    · split <;> exact Nat.le_refl _

theorem jumpLoop_moved {move : ListIdx → ListIdx × Bool} (hm : ∀ x, Moved x (move x).1)
    (n : Nat) (x : ListIdx) (b : Bool) : Moved x (jumpLoop move n (x, b)).1 := by
  induction n generalizing x b with
  | zero => exact .refl x
  | succ n ih => exact (hm x).trans (ih _ _)

theorem iterate_inc_moved (n : Nat) (x : ListIdx) : Moved x ((fun x => x.inc.1)^[n] x) := by
  induction n generalizing x with
  | zero => exact .refl x
  | succ n ih => exact (inc_moved x).trans (ih _)

theorem keyProcess_moved (x : ListIdx) (key : KeyUser) (dis : List Char32) :
    Moved x (x.keyProcess key dis).1 :=
  keyProcess_cases (P := fun r => Moved x r.1) (inc_moved x) (dec_moved x)
    (jumpLoop_moved inc_moved _ x _) (jumpLoop_moved dec_moved _ x _) (reset_moved x)
    (cursorEndSet_moved x) (.refl x) key dis

/-! ## Agreement with a text -/

/-- `x` counts the positions of a text of `n` items and its cursor is one of them. -/
structure Fits (x : ListIdx) (n : Nat) : Prop where
  inv : x.RepInv
  size_eq : x.mSize.toNat = n + 1
  cursorAbs_le : x.cursorAbs.toNat ≤ n

/-- Without window the cursor is the offset. -/
theorem RepInv.cursorAbs_of_win_zero (h : x.RepInv) (hw : x.mWin = 0) :
    x.cursorAbs.toNat = x.mOffset.toNat := by
  rw [h.cursorAbs_toNat, h.cursor_zero (.inl hw)]
  rfl

theorem Fits.of_window (h : x.RepInv) (hs : x.mSize.toNat = n + 1)
    (ho : x.mWin = 0 → x.mOffset.toNat ≤ n) : x.Fits n := by
  refine ⟨h, hs, ?_⟩
  by_cases hw : x.mWin = 0
  · rw [h.cursorAbs_of_win_zero hw]
    exact ho hw
  · rw [toNat_eq_zero] at hw
    have := h.cursorAbs_lt (Nat.pos_of_ne_zero hw) (by omega)
    omega

theorem Fits.offset_le (h : x.Fits n) (hw : x.mWin = 0) : x.mOffset.toNat ≤ n := by
  rw [← h.inv.cursorAbs_of_win_zero hw]
  exact h.cursorAbs_le

theorem Fits.moved (h : x.Fits n) (hm : Moved x y) : y.Fits n :=
  .of_window (hm.inv h.inv) (by rw [hm.same.size]; exact h.size_eq) fun hw =>
    have hx := hm.same.win.symm.trans hw
    Nat.le_trans (hm.offset_le hx) (h.offset_le hx)

theorem Fits.cursorBoundSet (h : x.Fits n) (bnd : UInt32) : (x.cursorBoundSet bnd).Fits n := by
  have hf := cursorBoundSet_frame x bnd
  have ho : (x.cursorBoundSet bnd).mOffset = x.mOffset := by
    unfold ListIdx.cursorBoundSet
    split <;> rfl
  refine .of_window (cursorBoundSet_repInv h.inv bnd) (by rw [hf.2]; exact h.size_eq) fun hw => ?_
  rw [ho]
  exact h.offset_le (hf.1.symm.trans hw)

/-- `sanityCheck` without window takes the offset back to the size at most. -/
theorem sanityCheck_offset_of_win_zero (hw : x.mWin = 0) :
    x.sanityCheck.mOffset.toNat = min x.mOffset.toNat x.mSize.toNat := by
  have hz : x.mWin.toNat = 0 := by rw [hw]; rfl
  have := x.mOffset.toNat_lt
  have := x.mSize.toNat_lt
  simp only [sanityCheck, cursorCheck, offsetCheck, ne_eq, toNat_eq_zero, gt_iff_lt,
    UInt32.lt_iff_toNat_lt, UInt32.toNat_add, hz]
  split
  · dsimp only
    split
    · rw [UInt32.toNat_sub, hz]
      omega
    · rw [UInt32.toNat_zero]
      omega
  · omega

theorem Fits.winSet (h : x.Fits n) {win : UInt32} (hov : x.mSize.toNat + win.toNat < 2 ^ 32) :
    (x.winSet win).Fits n := by
  refine .of_window (winSet_repInv h.inv hov) (by rw [winSet_mSize]; exact h.size_eq) fun hw => ?_
  rw [winSet_mWin] at hw
  have ho := sanityCheck_offset_of_win_zero (x := { x with mWin := win }) hw
  have hr := h.inv.offset_le_size
  have hc := h.inv.cursorAbs_toNat
  have hn := h.cursorAbs_le
  have hoff : (x.winSet win).mOffset = (sanityCheck { x with mWin := win }).mOffset := rfl
  rw [hoff, ho]
  dsimp only
  omega

/-- A new size fits if a view without window is not behind the text. -/
theorem sizeSet_fits (h : x.RepInv) {size : UInt32} (hs : size.toNat = n + 1)
    (ho : x.mWin = 0 → x.mOffset.toNat ≤ n) : (x.sizeSet size).Fits n := by
  refine .of_window (sizeSet_repInv h size) (by rw [sizeSet_mSize, hs]) fun hw => ?_
  rw [sizeSet_mWin] at hw
  have hm := sanityCheck_offset_of_win_zero (x := { x with mSize := size }) hw
  have hoff : (x.sizeSet size).mOffset = (sanityCheck { x with mSize := size }).mOffset := rfl
  have := ho hw
  rw [hoff, hm]
  dsimp only
  omega

theorem Fits.insert (h : x.Fits n) (hn : n + 2 < 2 ^ 32) : x.insert.Fits (n + 1) := by
  refine Fits.moved (sizeSet_fits h.inv ?_ fun hw => Nat.le_trans (h.offset_le hw) (by omega))
    (inc_moved _)
  rw [UInt32.toNat_add, UInt32.toNat_one, h.size_eq]
  omega

theorem Fits.iterate_insert (h : x.Fits n) {m : Nat} (hn : n + m + 1 < 2 ^ 32) :
    (ListIdx.insert^[m] x).Fits (n + m) := by
  induction m generalizing x n with
  | zero => exact h
  | succ m ih =>
    have := ih (h.insert (by omega)) (by omega)
    rwa [Nat.add_right_comm, Nat.add_assoc] at this

/-- The size counts the inserts modulo `2 ^ 32`, whatever the window does. -/
theorem iterate_insert_mSize (m : Nat) (x : ListIdx) :
    (ListIdx.insert^[m] x).mSize = x.mSize + UInt32.ofNat m := by
  induction m generalizing x with
  | zero => simp
  | succ m ih =>
    rw [Function.iterate_succ_apply, ih, (insert_frame x).2, UInt32.ofNat_add, UInt32.add_assoc,
      UInt32.add_comm (UInt32.ofNat m)]
    rfl

theorem Fits.shrink (h : x.Fits n) {m : Nat} (hn : n = m + 1)
    (ho : x.mWin = 0 → x.mOffset.toNat ≤ m) : (x.sizeSet (x.mSize - 1)).Fits m := by
  refine sizeSet_fits h.inv ?_ ho
  have hs := h.size_eq
  have := x.mSize.toNat_lt
  rw [UInt32.toNat_sub, UInt32.toNat_one]
  omega

theorem Fits.prevErase (h : x.Fits n) (hc : x.cursorAbs ≠ 0) : x.prevErase.1.Fits (n - 1) := by
  have hp := hc
  rw [ne_eq, toNat_eq_zero] at hp
  have hn := h.cursorAbs_le
  have hs := h.size_eq
  rw [ListIdx.prevErase, if_neg hc]
  dsimp only
  split
  · next he =>
    -- a view without window ends behind the cursor
    have hw : x.mWin ≠ 0 := by
      intro hw
      have ho := h.offset_le hw
      rw [h.inv.endReached_iff, hw, UInt32.toNat_zero] at he
      omega
    have hd := decOffset_same x
    have hf : x.decOffset.1.Fits n :=
      .of_window (decOffset_repInv h.inv) (by rw [hd.size]; exact hs)
        fun h0 => absurd (hd.win.symm.trans h0) hw
    exact hf.shrink (m := n - 1) (by omega) fun h0 => absurd (hd.win.symm.trans h0) hw
  · have hd := dec_same x
    refine (h.moved (dec_moved x)).shrink (m := n - 1) (by omega) fun h0 => ?_
    have hw := hd.win.symm.trans h0
    rw [h.inv.cursorAbs_of_win_zero hw] at hp hn
    have hb : x.mCursor ≤ x.mCursorLbound ∧ x.mOffset ≠ 0 := by
      rw [h.inv.cursor_zero (.inl hw), ne_eq, toNat_eq_zero]
      exact ⟨UInt32.zero_le, hp⟩
    rw [dec, if_pos hb]
    simp only [UInt32.toNat_sub, UInt32.toNat_one]
    omega

theorem Fits.currErase (h : x.Fits n) (hc : x.cursorAbs.toNat < n) :
    x.currErase.1.Fits (n - 1) := by
  have hs := h.size_eq
  have h0 : ¬ x.mSize = 0 := by rw [toNat_eq_zero]; omega
  rw [ListIdx.currErase, if_neg h0]
  dsimp only
  split
  · next he =>
    have hw : x.mWin ≠ 0 := by
      intro hw
      have ho := h.offset_le hw
      rw [h.inv.endReached_iff, hw, UInt32.toNat_zero] at he
      omega
    have hd := (decOffset_same x).trans (incCursor_same _)
    have hf : x.decOffset.1.incCursor.1.Fits n :=
      .of_window (incCursor_repInv (decOffset_repInv h.inv)) (by rw [hd.size]; exact hs)
        fun h0 => absurd (hd.win.symm.trans h0) hw
    exact hf.shrink (m := n - 1) (by omega) fun h0 => absurd (hd.win.symm.trans h0) hw
  · refine h.shrink (by omega) fun hw => ?_
    rw [h.inv.cursorAbs_of_win_zero hw] at hc
    omega

end ListIdx
end ProcessingCommon
