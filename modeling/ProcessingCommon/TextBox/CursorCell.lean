import Mathlib.Data.List.Nodup
import ProcessingCommon.ListIdxScroll
import ProcessingCommon.TextBox.Texts
import ProcessingCommon.TextBox.Tokens

/-!
# The cell of the cursor

While the box has the focus both indexes keep their scrolling margins, so `print` puts neither of
the two overflow marks where the cursor is.
-/

namespace ProcessingCommon
namespace TextBox

variable {b : TextBox} {op : Op} {key : KeyUser} {str : StdString} {α : Type}

/-! ## Edits keep the margins -/

def Margined (b : TextBox) : Prop := b.mIdxFront.InMargins ∧ b.mIdxBack.InMargins

theorem Margined.low (h : b.Margined) : b.listIdxLow.InMargins := by
  unfold listIdxLow
  split
  · exact h.2
  · exact h.1

/-- A focused box whose text keeps to `mLenMax`. -/
structure Editing (b : TextBox) : Prop where
  consistent : b.Consistent
  focus : b.mFocus = true
  length : b.mUstrWork.length ≤ b.mLenMax
  margins : b.Margined

theorem Editing.size_lt (h : b.Editing) : b.mIdxFront.mSize.toNat < 2 ^ 31 := by
  have hfit := (h.consistent.focused h.focus).1.size_eq
  have hmax := h.consistent.lenMax
  have hlen := h.length
  omega

theorem selectionClear_margined (h : b.Editing) : b.selectionClear.1.Margined := by
  have hfit := h.consistent.fitsText h.focus
  have hle := hfit.low_add_selectionLen_le
  have hsize := hfit.low.size_eq
  have hmax := h.consistent.lenMax
  have hlen := h.length
  obtain ⟨work, hw, hl⟩ := eraseAt_ok _ _ _ hle
  have hlow : (b.listIdxLow.assign (sizeToU32 (work.length + 1))).InMargins := by
    refine h.margins.low.sizeSet ?_ (by omega)
    rw [sizeToU32_succ (by omega)]
    omega
  rw [selectionClear, hw]
  exact ⟨hlow, hlow⟩

theorem selectionReplace_margined (h : b.Editing) (str : StdString) :
    (b.selectionReplace str).1.Margined := by
  have hclear := selectionClear_margined h
  obtain ⟨work, idx, hc, hl, hi⟩ := selectionClear_ok h.consistent h.focus
  have hmax := h.consistent.lenMax
  have hlen := h.length
  have hsize := hi.size_eq
  rw [hc] at hclear
  rw [selectionReplace, hc]
  dsimp only
  unfold selectionInsert
  split
  · exact hclear
  · next ustr hu =>
    dsimp only
    have hm : sizeSub (min (work.length + ustr.length) b.mLenMax) work.length =
        min ustr.length (b.mLenMax - work.length) := sizeSub_min (by omega) hmax
    split
    · exact hclear
    · have hinserted := hclear.1.iterate_insert
        (n := sizeSub (min (work.length + ustr.length) b.mLenMax) work.length) (by
          rw [hm]
          show idx.mSize.toNat + _ < _
          omega)
      exact ⟨hinserted, hinserted⟩

theorem replaceDirty_margined (h : b.Editing) (str : StdString) :
    (b.replaceDirty str).1.Margined := by
  have hreplace := selectionReplace_margined h str
  unfold replaceDirty
  split
  · next hr =>
    rw [hr] at hreplace
    exact hreplace
  · next hr =>
    rw [hr] at hreplace
    exact hreplace

theorem keyBackspaceProcess_margined (h : b.Editing) : b.keyBackspaceProcess.1.Margined := by
  have hprev := h.margins.1.prevErase h.size_lt
  unfold keyBackspaceProcess
  split
  · exact replaceDirty_margined h _
  dsimp only
  split
  · exact ⟨hprev, h.margins.2⟩
  split
  · exact ⟨hprev, h.margins.2⟩
  · exact ⟨hprev, hprev⟩

theorem keyDeleteProcess_margined (h : b.Editing) : b.keyDeleteProcess.1.Margined := by
  have hcurr := h.margins.1.currErase h.size_lt
  unfold keyDeleteProcess
  split
  · exact replaceDirty_margined h _
  split
  · exact h.margins
  dsimp only
  split
  · exact ⟨hcurr, h.margins.2⟩
  split
  · exact ⟨hcurr, hcurr⟩
  · exact ⟨hcurr, hcurr⟩

theorem keyPrintProcess_margined (h : b.Editing) (key : KeyUser) :
    (b.keyPrintProcess key).1.Margined := by
  have hinsert := h.margins.1.insert h.size_lt
  unfold keyPrintProcess
  split
  · exact h.margins
  split
  · split
    · exact h.margins
    · exact replaceDirty_margined h _
  split
  · exact h.margins
  split
  · exact h.margins
  · exact ⟨hinsert, hinsert⟩

theorem keyEdit_margined (h : b.Editing) (key : KeyUser) : (b.keyEdit key).1.Margined := by
  unfold keyEdit
  split
  · exact keyBackspaceProcess_margined h
  split
  · exact keyDeleteProcess_margined h
  split
  · exact h.margins
  · exact keyPrintProcess_margined h key

/-! ## Navigation keeps the margins -/

theorem cursorJump_inMargins (h : b.mIdxFront.InMargins) (key : KeyUser) :
    (b.cursorJump key).1.InMargins := by
  have hmove : ∀ x : ListIdx, x.InMargins → (jumpMove (key.eqCtrl keyRight) x).InMargins := by
    intro x hx
    unfold jumpMove
    split
    · exact hx.inc
    · exact hx.dec
  obtain ⟨k, hk⟩ := b.cursorJump_rounds key
  rw [hk]
  exact Function.Iterate.rec ListIdx.InMargins h hmove k

theorem navigateFront_inMargins (h : b.mIdxFront.InMargins) {r : ListIdx × Bool}
    (hr : b.navigateFront key = some r) : r.1.InMargins := by
  unfold navigateFront at hr
  split_ifs at hr <;> cases hr
  · exact h.reset
  · exact h.cursorEndSet
  · exact cursorJump_inMargins h key
  · exact h.dec
  · exact h.inc
  · exact h.keyProcess key []

theorem navigate_margined (h : b.Margined) (key : KeyUser) : (b.navigate key).1.Margined := by
  unfold navigate
  split
  · exact h
  · next hr =>
    have hfront := navigateFront_inMargins h.1 hr
    split
    · exact ⟨hfront, h.2⟩
    · exact ⟨hfront, hfront⟩

/-- The flag and the clipboard do not matter. -/
theorem Editing.with (h : b.Editing) (clip : StdString) (dirty : Bool) :
    Editing { b with mClipboard := clip, mDirty := dirty } where
  consistent := ⟨h.consistent.front, h.consistent.back, h.consistent.lenMax, h.consistent.work,
    h.consistent.current, h.consistent.focused⟩
  focus := h.focus
  length := h.length
  margins := h.margins

theorem keyCut_margined (h : b.Editing) : b.keyCut.1.Margined := by
  unfold keyCut
  rcases clipboardSet_cases b with ⟨clip, hc, -⟩ | ⟨e, hc, -⟩
  · rw [hc]
    dsimp only
    rw [if_neg (not_unfocused h.focus)]
    exact replaceDirty_margined (h.with clip b.mDirty) _
  · rw [hc]
    exact h.margins

theorem keyCopy_margined (h : b.Margined) : b.keyCopy.1.Margined := by
  unfold keyCopy
  rcases clipboardSet_cases b with ⟨clip, hc, -⟩ | ⟨e, hc, -⟩
  · rw [hc]
    exact h
  · rw [hc]
    exact h

theorem keyProcess_margined (h : b.Editing) (key : KeyUser) : (b.keyProcess key).1.Margined := by
  have hc := h.with b.mClipboard false
  have hnav := navigate_margined hc.margins key
  unfold keyProcess
  dsimp only
  split
  · exact keyCut_margined hc
  split
  · exact keyCopy_margined hc.margins
  split
  · exact hc.margins
  split
  · exact ⟨hc.margins.1.cursorEndSet, hc.margins.2.reset⟩
  split
  · exact hnav
  · cases hr : navigateFront { b with mDirty := false } key with
    | none =>
      rw [navigate, hr]
      exact keyEdit_margined hc key
    | some r =>
      rw [keyEdit_of_navigate hr]
      exact hnav

/-! ## The calls -/

/-- Width, frame and padding change without focus, the cursor is shown and its bounds are those
of `winSet`. -/
def LayoutOk (b : TextBox) : Op → Prop
  | .widthSet _ | .frameEnabledSet _ | .paddingEnabledSet _ => b.mFocus = false
  | .cursorBoundSet _ => False
  | .cursorShow val => val = true
  | _ => True

/-- With the focus the window has three columns, and the texts keep to `mLenMax`. -/
structure Displayable (b : TextBox) : Prop where
  win : b.mFocus = true → 3 ≤ b.mIdxFront.win.toNat
  work : b.mUstrWork.length ≤ b.mLenMax
  current : b.mUstrCurrent.length ≤ b.mLenMax

/-- Bounds and size of an index of a box without focus, whose window may be too small to be shown
yet. -/
def Shaped (x : ListIdx) : Prop := (3 ≤ x.mWin.toNat → x.DefaultBounds) ∧ x.mSize.toNat ≤ 2 ^ 16

/-- Margins with the focus, shapes without. -/
structure IndexesOk (b : TextBox) : Prop where
  idle : b.mFocus = false → Shaped b.mIdxFront ∧ Shaped b.mIdxBack
  focused : b.mFocus = true → b.Margined

/-- The invariant of the runs below. -/
structure CellInv (b : TextBox) : Prop where
  consistent : b.Consistent
  displayable : b.Displayable
  cursorShow : b.mCursorShow = true
  indexes : b.IndexesOk

theorem CellInv.editing (h : b.CellInv) (hf : b.mFocus = true) : b.Editing :=
  ⟨h.consistent, hf, h.displayable.work, h.indexes.focused hf⟩

theorem CellInv.shaped (h : b.CellInv) : Shaped b.mIdxFront ∧ Shaped b.mIdxBack := by
  cases hf : b.mFocus with
  | false => exact h.indexes.idle hf
  | true =>
    obtain ⟨hfront, hback⟩ := h.consistent.focused hf
    have hmax := h.consistent.lenMax
    have hlen := h.displayable.work
    have hfs := hfront.size_eq
    have hbs := hback.size_eq
    obtain ⟨hf', hb'⟩ := h.indexes.focused hf
    exact ⟨⟨fun _ => hf'.bounds, by omega⟩, ⟨fun _ => hb'.bounds, by omega⟩⟩

theorem endSet_win (x : ListIdx) (size : UInt32) :
    (x.assign size).cursorEndSet.1.mWin = x.mWin :=
  (ListIdx.cursorEndSet_same _).win.trans (ListIdx.sizeSet_same x size).win

/-- A window that the focus can be given to. -/
theorem focusSet_win {accept : Bool} (hd : (b.focusSet true accept).1.Displayable) :
    3 ≤ b.mIdxFront.mWin.toNat := by
  have hwin : 3 ≤ (b.focusSet true accept).1.mIdxFront.mWin.toNat := hd.win rfl
  rw [← endSet_win b.mIdxFront (sizeToU32 (b.mUstrCurrent.length + 1))]
  exact hwin

/-- A text that keeps to `mLenMax` after `currentSet` can be counted. -/
theorem currentSet_textOk (h : b.CellInv) (hd : (b.currentSet str).1.Displayable) :
    TextOk str := by
  intro ustr hu
  have hset : (b.currentSet str).1.mUstrCurrent = ustr ∧
      (b.currentSet str).1.mLenMax = b.mLenMax := by
    simp only [currentSet, hu]
    split <;> exact ⟨rfl, rfl⟩
  have hlen := hd.current
  have hmax := h.consistent.lenMax
  rw [hset.1, hset.2] at hlen
  omega

/-- The condition of `agreement` follows from what the runs keep to. -/
theorem CellInv.stepOk (h : b.CellInv) (hd : (b.apply op).Displayable) : b.StepOk op := by
  have hview (n : Nat) (hw : 3 ≤ b.mIdxFront.mWin.toNat) : b.ViewOk n := by
    intro h0
    rw [h0] at hw
    exact absurd hw (by decide)
  have hreplace : b.ReplaceOk := Nat.le_trans (Nat.sub_le _ _) h.displayable.work
  obtain ⟨⟨-, hfs⟩, ⟨-, hbs⟩⟩ := h.shaped
  have hwidth : ∀ width, b.WidthOk width := by
    intro width
    have := width.toNat_lt
    exact ⟨by omega, by omega⟩
  cases op with
  | widthSet width => exact hwidth width
  | frameEnabledSet val | paddingEnabledSet val => exact hwidth _
  | focusSet foc accept =>
    intro hfoc
    subst hfoc
    have hfocus : (b.focusSet true accept).1.Displayable := hd
    exact hview _ (focusSet_win hfocus)
  | currentSet str => exact currentSet_textOk h hd
  | ustrWorkSet ustr =>
    have hset : (b.ustrWorkSet ustr).mUstrWork = ustr ∧
        (b.ustrWorkSet ustr).mLenMax = b.mLenMax := by
      unfold ustrWorkSet
      extract_lets c
      split <;> exact ⟨rfl, rfl⟩
    have hlen : (b.ustrWorkSet ustr).mUstrWork.length ≤ (b.ustrWorkSet ustr).mLenMax := hd.work
    have hmax := h.consistent.lenMax
    rw [hset.1, hset.2] at hlen
    exact ⟨by omega, fun hf => hview _ (h.displayable.win hf)⟩
  | paste str =>
    refine ⟨fun hf => ?_, fun _ _ => hreplace⟩
    have hpaste : (b.paste str).1 = (b.currentSet str).1 := by
      rw [paste, hf]
      rfl
    exact currentSet_textOk h (hpaste ▸ hd)
  | keyProcess key => exact fun _ => hreplace
  | _ => trivial

theorem Shaped.same {x y : ListIdx} (h : Shaped x) (hs : ListIdx.SameList x y) : Shaped y :=
  ⟨fun h3 => (h.1 (hs.win ▸ h3)).same hs, hs.size ▸ h.2⟩

/-- An index that gets the size of a text of the box. -/
theorem Shaped.assign {x : ListIdx} (h : Shaped x) {n : Nat} (hn : n < 2 ^ 16) :
    Shaped (x.assign (sizeToU32 (n + 1))) := by
  have hs := ListIdx.sizeSet_same x (sizeToU32 (n + 1))
  refine ⟨fun h3 => (h.1 (hs.win ▸ h3)).of_same hs.win hs.lbound hs.ubound, ?_⟩
  rw [ListIdx.assign, ListIdx.sizeSet_mSize, sizeToU32_succ (by omega)]
  omega

theorem assign_cursorEndSet_inMargins {x : ListIdx} (hi : x.RepInv) (h : Shaped x)
    (h3 : 3 ≤ x.mWin.toNat) (size : UInt32) : (x.assign size).cursorEndSet.1.InMargins := by
  have hs := ListIdx.sizeSet_same x size
  exact ListIdx.cursorEndSet_inMargins (ListIdx.sizeSet_repInv hi size)
    ((h.1 h3).of_same hs.win hs.lbound hs.ubound)

theorem winSet_shaped {x : ListIdx} {win : UInt32} (hlt : win.toNat < 2 ^ 16)
    (hs : x.mSize.toNat ≤ 2 ^ 16) : Shaped (x.winSet win) := by
  refine ⟨fun h3 => ListIdx.winSet_defaultBounds x ?_ hlt, ?_⟩
  · rw [← ListIdx.winSet_mWin x win]
    exact h3
  · rw [ListIdx.winSet_mSize]
    exact hs

theorem widthSet_indexesOk (h : b.CellInv) (hf : b.mFocus = false) (width : UInt16) :
    (b.widthSet width).IndexesOk := by
  obtain ⟨⟨-, hfs⟩, ⟨-, hbs⟩⟩ := h.shaped
  unfold widthSet
  split
  · exact h.indexes
  · extract_lets b' width' width'' idxFront
    have hwin : idxFront.win = width''.toUInt32 := ListIdx.winSet_mWin _ _
    have hlt : width''.toUInt32.toNat < 2 ^ 16 := by
      rw [UInt16.toNat_toUInt32]
      exact width''.toNat_lt
    refine ⟨fun _ => ⟨winSet_shaped hlt hfs, winSet_shaped (hwin ▸ hlt) hbs⟩, fun hf' => ?_⟩
    exact absurd (hf.symm.trans hf') Bool.false_ne_true

theorem currentSet_indexesOk (h : b.CellInv) (hd : (b.currentSet str).1.Displayable) :
    (b.currentSet str).1.IndexesOk := by
  have htext := currentSet_textOk h hd
  have hcurrent := hd.current
  have hmax := h.consistent.lenMax
  revert hcurrent
  unfold currentSet
  cases hu : strToUtf str with
  | none => exact fun _ => ⟨h.indexes.idle, h.indexes.focused⟩
  | some ustr =>
    dsimp only
    split
    · exact fun _ => ⟨h.indexes.idle, h.indexes.focused⟩
    · next hf =>
      intro hcurrent
      dsimp only at hcurrent
      have hfront := h.shaped.1.assign (n := ustr.length) (by omega)
      have hback := h.shaped.2.assign (n := ustr.length) (by omega)
      refine ⟨fun _ => ⟨hfront, ?_⟩, fun hf' => absurd hf' hf⟩
      have hsize : (b.mIdxFront.assign (sizeToU32 (ustr.length + 1))).size =
          sizeToU32 (ustr.length + 1) := ListIdx.sizeSet_mSize _ _
      rw [hsize]
      exact hback

theorem focusSet_indexesOk (h : b.CellInv) {foc accept : Bool}
    (hd : (b.focusSet foc accept).1.Displayable) : (b.focusSet foc accept).1.IndexesOk := by
  have hmax := h.consistent.lenMax
  have hwork := h.displayable.work
  have hcurrent := h.displayable.current
  have hfront := h.shaped.1
  cases foc with
  | true =>
    have hmargins := assign_cursorEndSet_inMargins h.consistent.front hfront (focusSet_win hd)
      (sizeToU32 (b.mUstrCurrent.length + 1))
    exact ⟨fun hf => (nomatch hf), fun _ => ⟨hmargins, hmargins⟩⟩
  | false =>
    have hreset : ∀ n, n < 2 ^ 16 →
        Shaped (b.mIdxFront.assign (sizeToU32 (n + 1))).reset.1 := by
      intro n hn
      exact (hfront.assign hn).same (ListIdx.reset_same _)
    simp only [focusSet, Bool.false_eq_true, if_false]
    cases accept with
    | false =>
      have hidx := hreset b.mUstrCurrent.length (by omega)
      exact ⟨fun _ => ⟨hidx, hidx⟩, fun hf => by cases hf⟩
    | true =>
      have hidx := hreset b.mUstrWork.length (by omega)
      simp only [if_true]
      split
      · exact ⟨fun _ => h.shaped, fun hf => by cases hf⟩
      · exact ⟨fun _ => ⟨hidx, hidx⟩, fun hf => by cases hf⟩

theorem ustrWorkSet_indexesOk (h : b.CellInv) (ustr : U32String) :
    (b.ustrWorkSet ustr).IndexesOk := by
  unfold ustrWorkSet
  extract_lets c
  split
  · exact ⟨h.indexes.idle, h.indexes.focused⟩
  · next hf =>
    rw [Bool.not_eq_true', Bool.not_eq_false] at hf
    have hmargins := assign_cursorEndSet_inMargins h.consistent.front h.shaped.1
      (h.displayable.win hf) (sizeToU32 (ustr.length + 1))
    exact ⟨fun hf' => absurd (hf'.symm.trans hf) Bool.false_ne_true,
      fun _ => ⟨hmargins, hmargins⟩⟩

theorem selectionSet_indexesOk (h : b.CellInv) (idxStart len : UInt16) :
    (b.selectionSet idxStart len).IndexesOk := by
  unfold selectionSet
  extract_lets str idxEnd idxMax idxFront idxStart' idxFront' idxBack idxEnd' idxFront''
  have hm : ListIdx.Moved b.mIdxFront idxFront' :=
    (ListIdx.reset_moved _).trans (ListIdx.iterate_inc_moved _ _)
  have hm' : ListIdx.Moved b.mIdxFront idxFront'' := hm.trans (ListIdx.iterate_inc_moved _ _)
  refine ⟨fun _ => ⟨h.shaped.1.same hm'.same, h.shaped.1.same hm.same⟩, fun hf => ?_⟩
  have hback : idxFront'.InMargins := (h.indexes.focused hf).1.reset.iterate_inc _
  exact ⟨hback.iterate_inc _, hback⟩

theorem paste_indexesOk (h : b.CellInv) (hd : (b.paste str).1.Displayable) :
    (b.paste str).1.IndexesOk := by
  cases hf : b.mFocus with
  | true =>
    have hfocus := (paste_edited hf str).focus.trans hf
    refine ⟨fun hf' => absurd (hf'.symm.trans hfocus) Bool.false_ne_true, fun _ => ?_⟩
    rw [paste, hf]
    exact selectionReplace_margined (h.editing hf) str
  | false =>
    have hpaste : (b.paste str).1 = (b.currentSet str).1 := by
      rw [paste, hf]
      rfl
    rw [hpaste] at hd ⊢
    exact currentSet_indexesOk h hd

theorem keyProcess_indexesOk (h : b.CellInv) (key : KeyUser) :
    (b.keyProcess key).1.IndexesOk := by
  cases hf : b.mFocus with
  | true =>
    have hfocus := (keyProcess_edited hf key).focus.trans hf
    exact ⟨fun hf' => absurd (hf'.symm.trans hfocus) Bool.false_ne_true,
      fun _ => keyProcess_margined (h.editing hf) key⟩
  | false =>
    obtain ⟨clip, dirty, he⟩ := keyProcess_unfocused hf key
    rw [he]
    exact ⟨h.indexes.idle, h.indexes.focused⟩

theorem frame_cellInv (h : b.CellInv) (frame padding : Bool) :
    CellInv { b with mFrameEnabled := frame, mPaddingEnabled := padding } where
  consistent := ⟨h.consistent.front, h.consistent.back, h.consistent.lenMax, h.consistent.work,
    h.consistent.current, h.consistent.focused⟩
  displayable := ⟨h.displayable.win, h.displayable.work, h.displayable.current⟩
  cursorShow := h.cursorShow
  indexes := ⟨h.indexes.idle, h.indexes.focused⟩

theorem apply_indexesOk (h : b.CellInv) (hop : b.LayoutOk op) (hd : (b.apply op).Displayable) :
    (b.apply op).IndexesOk := by
  cases op with
  | widthSet width => exact widthSet_indexesOk h hop width
  | frameEnabledSet val =>
    exact widthSet_indexesOk (frame_cellInv h val b.mPaddingEnabled) hop b.mWidth
  | paddingEnabledSet val =>
    exact widthSet_indexesOk (frame_cellInv h b.mFrameEnabled val) hop b.mWidth
  | cursorBoundSet bnd => exact hop.elim
  | focusSet foc accept => exact focusSet_indexesOk h hd
  | selectionSet idxStart len => exact selectionSet_indexesOk h idxStart len
  | currentSet str => exact currentSet_indexesOk h hd
  | ustrWorkSet ustr => exact ustrWorkSet_indexesOk h ustr
  | paste str => exact paste_indexesOk h hd
  | keyProcess key => exact keyProcess_indexesOk h key
  | clipboard clear => cases clear <;> exact ⟨h.indexes.idle, h.indexes.focused⟩
  | _ => exact ⟨h.indexes.idle, h.indexes.focused⟩

theorem widthSet_cursorShow (b : TextBox) (width : UInt16) :
    (b.widthSet width).mCursorShow = b.mCursorShow := by
  unfold widthSet
  split <;> rfl

theorem apply_cursorShow (hs : b.mCursorShow = true) (hop : b.LayoutOk op) :
    (b.apply op).mCursorShow = true := by
  cases hconfig : op.isConfig with
  | false =>
    by_cases hset : ∃ only, op = .numbersOnlySet only
    · obtain ⟨only, rfl⟩ := hset
      exact hs
    · have hc := apply_config b hconfig fun only h => hset ⟨only, h⟩
      exact (congrArg mCursorShow hc :).trans hs
  | true =>
    cases op with
    | widthSet width => exact (widthSet_cursorShow b width).trans hs
    | frameEnabledSet val => exact (widthSet_cursorShow _ _).trans hs
    | paddingEnabledSet val => exact (widthSet_cursorShow _ _).trans hs
    | cursorShow val => exact hop
    | clipboard clear => cases clear <;> exact hs
    | focusSet | numbersOnlySet | currentSet | ustrWorkSet | paste | keyProcess => cases hconfig
    | _ => exact hs

theorem CellInv.apply (h : b.CellInv) (hop : b.LayoutOk op) (hd : (b.apply op).Displayable) :
    (b.apply op).CellInv where
  consistent := (step_safe h.consistent (h.stepOk hd)).1
  displayable := hd
  cursorShow := apply_cursorShow h.cursorShow hop
  indexes := apply_indexesOk h hop hd

theorem new_cellInv : new.CellInv := by
  have hshaped : Shaped ((ListIdx.winSet {} 10).sizeSet 1) := by
    have hs := ListIdx.sizeSet_same (ListIdx.winSet {} 10) 1
    have hb : (ListIdx.winSet {} 10).DefaultBounds :=
      ListIdx.winSet_defaultBounds {} (by decide) (by decide)
    exact ⟨fun _ => hb.of_same hs.win hs.lbound hs.ubound, by decide⟩
  refine ⟨new_consistent, ?_, ?_, ?_⟩
  · rw [new_eq]
    exact ⟨fun hf => absurd hf (by decide), by decide, by decide⟩
  · rw [new_eq]
  · rw [new_eq]
    exact ⟨fun _ => ⟨hshaped, hshaped⟩, fun hf => nomatch hf⟩

/-! ## What is printed -/

/-- The round prints its cell underlined. -/
def Cell.isUnderlined : Cell → Bool
  | .mark _ => false
  | .text _ _ underlined => underlined

/-- The character at the cursor, masked in password mode, and a blank behind the text. -/
def cursorChar (b : TextBox) : Char32 :=
  if b.mIdxFront.cursorAbs.toNat < b.mUstrWork.length then
    if b.mPasswordMode then '*'.val else charAt b.mUstrWork b.mIdxFront.cursorAbs.toNat
  else ' '.val

theorem shownChar_cursor (hf : b.mFocus = true) :
    b.shownChar b.mIdxFront.cursorAbs.toNat = b.cursorChar := by
  unfold shownChar cursorChar shown
  rw [hf, if_pos rfl]
  dsimp only
  rw [List.length_append, List.length_singleton, Nat.add_sub_cancel]
  generalize b.mIdxFront.cursorAbs.toNat = idxAbs
  rcases Nat.lt_trichotomy idxAbs b.mUstrWork.length with hlt | heq | hgt
  · rw [if_neg (by omega), if_pos hlt, decide_eq_true hlt, Bool.and_true, charAt, charAt,
      List.getD_eq_getElem?_getD, List.getD_eq_getElem?_getD, List.getElem?_append_left hlt]
  · subst heq
    rw [if_neg (by omega), decide_eq_false (Nat.lt_irrefl _), Bool.and_false,
      if_neg Bool.false_ne_true, if_neg (Nat.lt_irrefl _), charAt, List.getD_eq_getElem?_getD,
      List.getElem?_concat_length]
    rfl
  · rw [if_pos (by omega), if_neg (by omega)]

/-- The round of the cursor prints no mark. -/
theorem CellInv.cell_cursor (h : b.CellInv) (hf : b.mFocus = true) :
    b.cell b.mIdxFront.mCursor.toNat = .text b.mIdxFront.cursorAbs.toNat b.cursorChar true := by
  have hm := (h.indexes.focused hf).1
  obtain ⟨hfirst, hlast⟩ := hm.visible
  have hpos : b.mIdxFront.offset.toNat + b.mIdxFront.mCursor.toNat =
      b.mIdxFront.cursorAbs.toNat := hm.inv.cursorAbs_toNat.symm
  unfold cell
  rw [hpos]
  dsimp only
  rw [shownChar_cursor hf, if_neg, if_neg]
  · rw [cursorPrint, hf, h.cursorShow]
    exact congrArg _ (beq_self_eq_true _)
  · rintro ⟨hc, he⟩
    rw [Bool.not_eq_true'] at he
    exact hlast ⟨hc, he⟩
  · rintro ⟨hc, ho⟩
    exact hfirst ⟨hc, fun h0 => ho (ListIdx.toNat_eq_zero.mpr h0)⟩

/-- No other round prints the position of the cursor. -/
theorem CellInv.eq_cursor (h : b.CellInv) (hf : b.mFocus = true) {idxRel : Nat}
    (hu : (b.cell idxRel).isUnderlined = true) : idxRel = b.mIdxFront.mCursor.toNat := by
  have hpos := (h.indexes.focused hf).1.inv.cursorAbs_toNat
  unfold cell at hu
  dsimp only at hu
  split at hu
  · cases hu
  split at hu
  · cases hu
  · have hcursor : b.cursorPrint (b.mIdxFront.offset.toNat + idxRel) = true := hu
    rw [cursorPrint, Bool.and_eq_true, beq_iff_eq, hpos] at hcursor
    exact Nat.add_left_cancel hcursor.2

theorem CellInv.cursor_lt_win (h : b.CellInv) (hf : b.mFocus = true) :
    b.mIdxFront.mCursor.toNat < b.mIdxFront.win.toNat := by
  have hm := (h.indexes.focused hf).1
  have hrange := hm.inv.cursor_lt_max
  have hthree := hm.bounds.three_le
  show _ < b.mIdxFront.mWin.toNat
  omega

/-! ### Where the output is underlined -/

/-- Only a cell that is printed underlined switches to it. -/
theorem underline_mem_cellTokens {c : Cell} (h : .underline ∈ b.cellTokens c) :
    c.isUnderlined = true := by
  cases c with
  | mark ch => exact absurd (List.mem_singleton.mp h) (by simp)
  | text idxAbs ch underlined =>
    cases underlined with
    | true => rfl
    | false =>
      rcases List.mem_append.mp h with h | h
      · exact absurd h (Token.not_mem_of_around rfl (switches_isAround idxAbs))
      · exact absurd (List.mem_singleton.mp h) (by simp)

theorem underline_not_mem_cells {idxs : List Nat}
    (h : ∀ j ∈ idxs, (b.cell j).isUnderlined = false) :
    .underline ∉ (idxs.map b.cell).flatMap b.cellTokens := by
  rw [List.mem_flatMap]
  rintro ⟨c, hc, hmem⟩
  obtain ⟨j, hj, rfl⟩ := List.mem_map.mp hc
  exact Bool.false_ne_true ((h j hj).symm.trans (underline_mem_cellTokens hmem))

/-- The tokens in front of the cell of the cursor and behind it do not underline. -/
theorem CellInv.tokens_cursor (h : b.CellInv) (hf : b.mFocus = true) : ∃ pre post,
    b.tokens = pre ++ [.underline, .text b.mIdxFront.cursorAbs.toNat b.cursorChar, .reset] ++ post ∧
      .underline ∉ pre ∧ .underline ∉ post := by
  obtain ⟨idxsLow, idxsHigh, hsplit⟩ :=
    List.append_of_mem (List.mem_range.mpr (h.cursor_lt_win hf))
  have hdistinct := List.nodup_range (n := b.mIdxFront.win.toNat)
  rw [hsplit, List.nodup_middle, List.nodup_cons] at hdistinct
  -- the cursor has one round, so no other one prints its position
  have hplain : ∀ j ∈ idxsLow ++ idxsHigh, (b.cell j).isUnderlined = false := by
    intro j hj
    refine Bool.eq_false_iff.mpr fun hu => hdistinct.1 ?_
    rw [← h.eq_cursor hf hu]
    exact hj
  refine ⟨b.headTokens ++ (idxsLow.map b.cell).flatMap b.cellTokens ++
      b.switches b.mIdxFront.cursorAbs.toNat,
    modifier (b.selectionPrint &&
      decide (b.mIdxFront.cursorAbs.toNat < b.listIdxHigh.cursorAbs.toNat)) ::
      ((idxsHigh.map b.cell).flatMap b.cellTokens ++ b.tailTokens), ?_, ?_, ?_⟩
  · rw [tokens, cells, hsplit, List.map_append, List.map_cons, h.cell_cursor hf,
      List.flatMap_append, List.flatMap_cons, cellTokens, if_pos rfl]
    simp only [List.append_assoc, List.cons_append, List.nil_append]
  · simp only [List.mem_append, not_or]
    exact ⟨⟨Token.not_mem_of_around rfl headTokens_isAround, underline_not_mem_cells fun j hj =>
      hplain j (List.mem_append_left _ hj)⟩, Token.not_mem_of_around rfl (switches_isAround _)⟩
  · simp only [List.mem_cons, List.mem_append, not_or]
    exact ⟨Token.ne_modifier rfl _, underline_not_mem_cells fun j hj =>
      hplain j (List.mem_append_right _ hj), Token.not_mem_of_around rfl tailTokens_isAround⟩

/-! ### Runs -/

/-- A run whose calls keep to `LayoutOk` and lead to displayable boxes. -/
def DisplayRun : TextBox → Prop :=
  Transition.Reachable (· = new) (Transition.guarded
    (fun b op => b.LayoutOk op ∧ (b.apply op).Displayable) (Transition.ofFun apply))

theorem DisplayRun.cellInv (h : b.DisplayRun) : b.CellInv :=
  h.invariant (fun _ hs => by rw [hs]; exact new_cellInv) fun s op t hs ht => by
    obtain ⟨⟨hop, hd⟩, rfl⟩ := ht
    exact hs.apply hop hd

/-- In every focused state of such a run `print` throws if something that it shows cannot be
converted; otherwise it underlines exactly one cell, the one that shows the character at the
cursor. -/
theorem cursor_cell (h : b.DisplayRun) (hf : b.mFocus = true) (m : Modifiers) :
    (b.print m = none ↔ ¬ b.Printable m) ∧ (b.Printable m → b.Writes m b.tokens) ∧
    ∃ pre post, b.tokens =
        pre ++ [.underline, .text b.mIdxFront.cursorAbs.toNat b.cursorChar, .reset] ++ post ∧
      .underline ∉ pre ∧ .underline ∉ post :=
  ⟨b.print_eq_none m, Printable.writes, h.cellInv.tokens_cursor hf⟩

/-- A box that is made smaller than it may be shown, and larger again, and gets a letter. -/
def resized : TextBox :=
  ((((new.apply (.widthSet 4)).apply (.widthSet 8)).apply (.focusSet true true)).apply
    (.keyProcess (.ofChar 97)))

theorem cursor_cell_typed : resized.mIdxFront.cursorAbs = 1 ∧ resized.cursorChar = ' '.val ∧
    resized.Writes {} resized.tokens ∧ ∃ pre post,
      resized.tokens = pre ++ [.underline, .text 1 ' '.val, .reset] ++ post ∧
        .underline ∉ pre ∧ .underline ∉ post := by
  have h₀ : Transition.Reachable (· = new) (Transition.guarded
      (fun b op => b.LayoutOk op ∧ (b.apply op).Displayable) (Transition.ofFun apply)) new :=
    .start rfl
  have h₁ := h₀.apply (Op.widthSet 4) ⟨by rw [new_eq]; rfl, by
    rw [new_eq]
    constructor <;> decide +kernel⟩
  have h₂ := h₁.apply (Op.widthSet 8) ⟨by rw [new_eq]; rfl, by
    rw [new_eq]
    constructor <;> decide +kernel⟩
  have h₃ := h₂.apply (Op.focusSet true true) ⟨trivial, by
    rw [new_eq]
    constructor <;> decide +kernel⟩
  have h₄ := h₃.apply (Op.keyProcess (.ofChar 97)) ⟨trivial, by
    rw [new_eq]
    constructor <;> decide +kernel⟩
  obtain ⟨-, hwrites, pre, post, htokens, hpre, hpost⟩ :=
    cursor_cell (b := resized) h₄ (by rw [resized, new_eq]; decide +kernel) {}
  have hcursor : resized.mIdxFront.cursorAbs = 1 ∧ resized.cursorChar = ' '.val := by
    rw [resized, new_eq]
    decide +kernel
  refine ⟨hcursor.1, hcursor.2, hwrites ?_, pre, post, ?_, hpre, hpost⟩
  · have hshown : resized.shown = ['a'.val] := by
      rw [resized, new_eq]
      decide +kernel
    refine printable_of_encodable (by constructor <;> decide +kernel) ?_
    rw [hshown]
    exact encodable_map_val ['a']
  · rw [htokens, hcursor.1, hcursor.2]
    rfl

/-- A run that ends with the focus on a code point outside of Unicode: nothing is written. -/
theorem cursor_cell_fails :
    DisplayRun ((new.apply (.focusSet true true)).apply (.ustrWorkSet [0x110000])) ∧
      ((new.apply (.focusSet true true)).apply (.ustrWorkSet [0x110000])).mFocus = true ∧
      ((new.apply (.focusSet true true)).apply (.ustrWorkSet [0x110000])).print {} = none := by
  have h₀ : Transition.Reachable (· = new) (Transition.guarded
      (fun b op => b.LayoutOk op ∧ (b.apply op).Displayable) (Transition.ofFun apply)) new :=
    .start rfl
  have h₁ := h₀.apply (Op.focusSet true true) ⟨trivial, by
    rw [new_eq]
    constructor <;> decide +kernel⟩
  have h₂ := h₁.apply (Op.ustrWorkSet [0x110000]) ⟨trivial, by
    rw [new_eq]
    constructor <;> decide +kernel⟩
  refine ⟨h₂, rfl, ?_⟩
  rw [print_eq_none, new_eq]
  intro h
  have hvalid : (0x110000 : UInt32).isValidChar := h (.text 0 0x110000) (by decide +kernel)
  exact absurd hvalid (by decide)

end TextBox
end ProcessingCommon
