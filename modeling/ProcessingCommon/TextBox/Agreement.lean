import ProcessingCommon.Lib.Transition
import ProcessingCommon.ListIdxText
import ProcessingCommon.TextBox.Model

/-!
# Index and text of the editor agree

While the box has the focus, both indexes are meant to count the positions of
`mUstrWork`, with their cursors inside. Each operation changes text and indexes
separately, and two of them get it wrong:

* `selectionReplace` subtracts the length of the remaining text from the smaller
  of two limits. When the remaining text is longer than `mLenMax` the difference
  wraps, and the index gets `2 ^ 64 - k` inserts for a text that gets none.
* With width 4, frame and padding the window is empty. `sizeSet` then leaves the
  offset, which is the cursor, one behind the last position of a shorter text.

`agreement` shows that there is nothing else: every run that stays away from
these two (and from texts that `uint32_t` cannot count) agrees in all its states,
and no call of it throws `out_of_range`.
-/

namespace ProcessingCommon
namespace TextBox

/-! ## The invariant -/

/-- What holds between the calls. -/
structure Consistent (b : TextBox) : Prop where
  front : b.mIdxFront.RepInv
  back : b.mIdxBack.RepInv
  lenMax : b.mLenMax < 2 ^ 16
  work : b.mUstrWork.length + 1 < 2 ^ 32
  current : b.mUstrCurrent.length + 1 < 2 ^ 32
  focused : b.mFocus = true →
    b.mIdxFront.Fits b.mUstrWork.length ∧ b.mIdxBack.Fits b.mUstrWork.length

/-- The state after a call is consistent, and the call did not throw `out_of_range`. -/
def Safe {α : Type} (r : Result α) : Prop := r.1.Consistent ∧ r.2 ≠ .error .outOfRange

/-! ## The condition on a call -/

/-- The text that is selected. -/
def selected (b : TextBox) : U32String :=
  (b.mUstrWork.drop b.listIdxLow.cursorAbs.toNat).take b.selectionLen

/-- The text around the selection is not longer than `mLenMax`. -/
def ReplaceOk (b : TextBox) : Prop := b.mUstrWork.length - b.selectionLen ≤ b.mLenMax

/-- The key makes `keyProcess` replace the selection. -/
def Replaces (b : TextBox) (key : KeyUser) : Prop :=
  b.mFocus = true ∧
    (key.eqCtrl keyCtrlX = true ∧ (utfToStr b.selected).isSome = true ∨
      b.isSelection = true ∧
        (keyIsBackspace key = true ∨ key.eqCtrl keyDelete = true ∨
          key.isPrint = true ∧ key.utf8.isSome = true ∧
            ¬ (b.mNumbersOnly && (key.ltChar '0'.val || key.gtChar '9'.val)) = true))

/-- An empty window does not show a position behind a text of `n` code points. -/
def ViewOk (b : TextBox) (n : Nat) : Prop := b.mIdxFront.mWin = 0 → b.mIdxFront.mOffset.toNat ≤ n

/-- Size and window can be added. -/
def WidthOk (b : TextBox) (width : UInt16) : Prop :=
  b.mIdxFront.mSize.toNat + width.toNat < 2 ^ 32 ∧ b.mIdxBack.mSize.toNat + width.toNat < 2 ^ 32

/-- The positions of the decoded text can be counted. -/
def TextOk (str : StdString) : Prop := ∀ ustr, strToUtf str = some ustr → ustr.length + 1 < 2 ^ 32

/-- The condition on the state before a call and its arguments. -/
def StepOk (b : TextBox) : Op → Prop
  | .widthSet width => b.WidthOk width
  | .frameEnabledSet _ | .paddingEnabledSet _ => b.WidthOk b.mWidth
  | .focusSet foc _ => foc = true → b.ViewOk b.mUstrCurrent.length
  | .currentSet str => TextOk str
  | .ustrWorkSet ustr => ustr.length + 1 < 2 ^ 32 ∧ (b.mFocus = true → b.ViewOk ustr.length)
  | .paste str =>
    (b.mFocus = false → TextOk str) ∧
      (b.mFocus = true → (strToUtf str).isSome = true → b.ReplaceOk)
  | .keyProcess key => b.Replaces key → b.ReplaceOk
  | _ => True

/-! ## The selection -/

variable {b : TextBox} {n : Nat} {str : StdString}

/-- Both indexes are on positions of a text of `n` code points. -/
def FitsText (b : TextBox) (n : Nat) : Prop := b.mIdxFront.Fits n ∧ b.mIdxBack.Fits n

theorem listIdxLow_le_high (b : TextBox) :
    b.listIdxLow.cursorAbs.toNat ≤ b.listIdxHigh.cursorAbs.toNat := by
  simp only [listIdxLow, listIdxHigh, gt_iff_lt, UInt32.lt_iff_toNat_lt]
  split <;> omega

theorem FitsText.low (h : b.FitsText n) : b.listIdxLow.Fits n := by
  unfold listIdxLow
  split
  · exact h.2
  · exact h.1

theorem FitsText.high (h : b.FitsText n) : b.listIdxHigh.Fits n := by
  unfold listIdxHigh
  split
  · exact h.1
  · exact h.2

/-- The selection ends at the higher cursor. -/
theorem low_add_selectionLen (b : TextBox) :
    b.listIdxLow.cursorAbs.toNat + b.selectionLen = b.listIdxHigh.cursorAbs.toNat := by
  have hle := listIdxLow_le_high b
  have := b.listIdxHigh.cursorAbs.toNat_lt
  rw [selectionLen, UInt32.toNat_sub]
  omega

theorem FitsText.low_add_selectionLen_le (h : b.FitsText n) :
    b.listIdxLow.cursorAbs.toNat + b.selectionLen ≤ n := by
  rw [low_add_selectionLen]
  exact h.high.cursorAbs_le

/-! ## Texts -/

theorem eraseAt_ok (s : U32String) (pos len : Nat) (h : pos + len ≤ s.length) :
    ∃ s', eraseAt s pos len = .ok s' ∧ s'.length = s.length - len := by
  refine ⟨_, if_pos (by omega), ?_⟩
  simp only [List.length_append, List.length_take, List.length_drop]
  omega

theorem insertAt_ok {s : U32String} {pos : Nat} (h : pos ≤ s.length) (str : U32String) :
    ∃ s', insertAt s pos str = .ok s' ∧ s'.length = s.length + str.length := by
  refine ⟨_, if_pos h, ?_⟩
  simp only [List.length_append, List.length_take, List.length_drop]
  omega

/-- Without wrap the difference is what is left of the limit. -/
theorem sizeSub_min {m k l : Nat} (hm : m ≤ l) (hl : l < 2 ^ 16) :
    sizeSub (min (m + k) l) m = min k (l - m) := by
  rw [sizeSub]
  omega

/-! ## Replacing the selection -/

theorem Consistent.fitsText (h : b.Consistent) (hf : b.mFocus = true) :
    b.FitsText b.mUstrWork.length := h.focused hf

/-- One index for both cursors, and a text that it fits. -/
theorem Consistent.replaced (h : b.Consistent) {work : U32String} {idx : ListIdx}
    (hw : work.length + 1 < 2 ^ 32) (hi : idx.Fits work.length) :
    Consistent { b with mUstrWork := work, mIdxFront := idx, mIdxBack := idx } :=
  ⟨hi.inv, hi.inv, h.lenMax, hw, h.current, fun _ => ⟨hi, hi⟩⟩

/-- `selectionClear` always succeeds on a focused box and leaves one cursor. -/
theorem selectionClear_ok (h : b.Consistent) (hf : b.mFocus = true) :
    ∃ work idx, b.selectionClear =
        ({ b with mUstrWork := work, mIdxFront := idx, mIdxBack := idx }, .ok ()) ∧
      work.length = b.mUstrWork.length - b.selectionLen ∧ idx.Fits work.length := by
  have ht := h.fitsText hf
  have hle := ht.low_add_selectionLen_le
  obtain ⟨work, hw, hl⟩ := eraseAt_ok _ _ _ hle
  refine ⟨work, b.listIdxLow.assign (sizeToU32 (work.length + 1)), ?_, hl, ?_⟩
  · simp only [selectionClear, hw]
  · refine ListIdx.sizeSet_fits ht.low.inv ?_ fun h0 => ?_
    · have := h.work
      simp only [sizeToU32, UInt32.toNat_ofNat']
      omega
    · have hc := ht.low.inv.cursorAbs_of_win_zero h0
      omega

theorem selectionInsert_safe (h : b.Consistent) (hfit : b.mIdxFront.Fits b.mUstrWork.length)
    (hm : ∀ ustr, strToUtf str = some ustr → b.mUstrWork.length ≤ b.mLenMax) :
    Safe (b.selectionInsert str) := by
  unfold selectionInsert
  split
  · exact ⟨h, by simp⟩
  · next ustr hu =>
    have hle := hm ustr hu
    have hmax := h.lenMax
    simp only [sizeSub_min hle hmax]
    obtain ⟨work, hw, hl⟩ := insertAt_ok hfit.cursorAbs_le
      (ustr.take (min ustr.length (b.mLenMax - b.mUstrWork.length)))
    rw [List.length_take] at hl
    simp only [hw]
    have hi := hfit.iterate_insert (m := min ustr.length (b.mLenMax - b.mUstrWork.length)) (by omega)
    refine ⟨h.replaced (by omega) ?_, by simp⟩
    convert hi using 1
    omega

/-- The two parts of `selectionReplace`, under the condition on `mLenMax`. -/
theorem selectionReplace_safe (h : b.Consistent) (hf : b.mFocus = true)
    (hm : (strToUtf str).isSome = true → b.ReplaceOk) : Safe (b.selectionReplace str) := by
  obtain ⟨work, idx, hc, hl, hi⟩ := selectionClear_ok h hf
  have hw := h.work
  simp only [selectionReplace, hc]
  refine selectionInsert_safe (h.replaced (by omega) hi) hi fun ustr hu => ?_
  have := hm (by rw [hu]; rfl)
  rw [ReplaceOk] at this
  dsimp only
  omega

/-! ## Configuration and text -/

/-- One step of the width calculation. -/
theorem narrowed_toNat (on : Bool) {width : UInt16} (hw : 2 ≤ width.toNat) :
    (if on then width - 2 else width).toNat ≤ width.toNat ∧
      width.toNat ≤ (if on then width - 2 else width).toNat + 2 := by
  have := width.toNat_lt
  have h2 : (2 : UInt16).toNat = 2 := rfl
  split
  · rw [UInt16.toNat_sub, h2]
    omega
  · omega

theorem widthSet_safe (h : b.Consistent) {width : UInt16} (hw : b.WidthOk width) :
    (b.widthSet width).Consistent := by
  unfold widthSet
  split
  · exact h
  · next h4 =>
    extract_lets b' width' width'' idxFront
    have := UInt16.lt_iff_toNat_lt.not.mp h4
    have hd : dSizeWidthMin.toNat = 4 := rfl
    -- frame and padding take at most the four columns that a width is refused without
    have h1 : width'.toNat ≤ width.toNat ∧ width.toNat ≤ width'.toNat + 2 :=
      narrowed_toNat b.mFrameEnabled (by omega)
    have h2 : width''.toNat ≤ width'.toNat ∧ width'.toNat ≤ width''.toNat + 2 :=
      narrowed_toNat b.mPaddingEnabled (by omega)
    have hle : width''.toUInt32.toNat ≤ width.toNat := by
      rw [UInt16.toNat_toUInt32]
      omega
    have hfr : b.mIdxFront.mSize.toNat + width''.toUInt32.toNat < 2 ^ 32 := by
      have := hw.1
      omega
    have hbk : b.mIdxBack.mSize.toNat + idxFront.win.toNat < 2 ^ 32 := by
      have := hw.2
      rw [ListIdx.win, ListIdx.winSet_mWin]
      omega
    exact ⟨ListIdx.winSet_repInv h.front hfr, ListIdx.winSet_repInv h.back hbk, h.lenMax, h.work,
      h.current, fun hf => ⟨(h.focused hf).1.winSet hfr, (h.focused hf).2.winSet hbk⟩⟩

theorem cursorBoundSet_safe (h : b.Consistent) (bnd : UInt32) :
    (b.cursorBoundSet bnd).Consistent where
  front := ListIdx.cursorBoundSet_repInv h.front bnd
  back := ListIdx.cursorBoundSet_repInv h.back bnd
  lenMax := h.lenMax
  work := h.work
  current := h.current
  focused hf := ⟨(h.focused hf).1.cursorBoundSet bnd, (h.focused hf).2.cursorBoundSet bnd⟩

theorem sizeToU32_succ {m : Nat} (hm : m + 1 < 2 ^ 32) : (sizeToU32 (m + 1)).toNat = m + 1 := by
  rw [sizeToU32, UInt32.toNat_ofNat']
  omega

/-- A new text in a focused box: the cursor goes to its end. -/
theorem endSet_fits (h : b.Consistent) {m : Nat} (hm : m + 1 < 2 ^ 32) (hv : b.ViewOk m) :
    (b.mIdxFront.assign (sizeToU32 (m + 1))).cursorEndSet.1.Fits m :=
  (ListIdx.sizeSet_fits h.front (sizeToU32_succ hm) hv).moved (ListIdx.cursorEndSet_moved _)

theorem focusSet_safe (h : b.Consistent) {foc accept : Bool}
    (hv : foc = true → b.ViewOk b.mUstrCurrent.length) : Safe (b.focusSet foc accept) := by
  cases foc with
  | true =>
    have hi := endSet_fits h h.current (hv rfl)
    exact ⟨⟨hi.inv, hi.inv, h.lenMax, h.current, h.current, fun _ => ⟨hi, hi⟩⟩, by simp [focusSet]⟩
  | false =>
    have hidx (m : Nat) : (b.mIdxFront.assign (sizeToU32 (m + 1))).reset.1.RepInv :=
      ListIdx.reset_repInv (ListIdx.sizeSet_repInv h.front _)
    have hcur : (if accept then b.mUstrWork else b.mUstrCurrent).length + 1 < 2 ^ 32 := by
      cases accept with
      | true => exact h.work
      | false => exact h.current
    simp only [focusSet, Bool.false_eq_true, if_false]
    cases accept with
    | true =>
      simp only [if_true]
      cases utfToStr b.mUstrWork with
      | none => exact ⟨⟨h.front, h.back, h.lenMax, h.work, h.work, nofun⟩, by simp⟩
      | some str => exact ⟨⟨hidx _, hidx _, h.lenMax, h.work, h.work, nofun⟩, by simp⟩
    | false =>
      exact ⟨⟨hidx _, hidx _, h.lenMax, h.work, h.current, nofun⟩, by simp⟩

theorem selectionSet_safe (h : b.Consistent) (idxStart len : UInt16) :
    (b.selectionSet idxStart len).Consistent := by
  unfold selectionSet
  extract_lets str idxEnd idxMax idxFront idxStart' idxFront' idxBack idxEnd' idxFront''
  have hm' : ListIdx.Moved b.mIdxFront idxFront' :=
    (ListIdx.reset_moved _).trans (ListIdx.iterate_inc_moved _ _)
  have hm'' : ListIdx.Moved b.mIdxFront idxFront'' := hm'.trans (ListIdx.iterate_inc_moved _ _)
  exact ⟨hm''.inv h.front, hm'.inv h.front, h.lenMax, h.work, h.current,
    fun hf => ⟨(h.focused hf).1.moved hm'', (h.focused hf).1.moved hm'⟩⟩

theorem currentSet_safe (h : b.Consistent) (ht : TextOk str) : Safe (b.currentSet str) := by
  unfold currentSet
  cases hu : strToUtf str with
  | none => exact ⟨⟨h.front, h.back, h.lenMax, h.work, h.current, h.focused⟩, by simp⟩
  | some ustr =>
    have hl := ht ustr hu
    dsimp only
    split
    · exact ⟨⟨h.front, h.back, h.lenMax, h.work, hl, h.focused⟩, by simp⟩
    · next hf =>
      exact ⟨⟨ListIdx.sizeSet_repInv h.front _, ListIdx.sizeSet_repInv h.back _, h.lenMax, h.work,
        hl, fun hf' => absurd hf' hf⟩, by simp⟩

theorem ustrWorkSet_safe (h : b.Consistent) {ustr : U32String} (hl : ustr.length + 1 < 2 ^ 32)
    (hv : b.mFocus = true → b.ViewOk ustr.length) : (b.ustrWorkSet ustr).Consistent := by
  unfold ustrWorkSet
  extract_lets b'
  split
  · next hf =>
    rw [Bool.not_eq_true'] at hf
    exact ⟨h.front, h.back, h.lenMax, hl, h.current, fun hf' => absurd hf (by rw [hf']; decide)⟩
  · next hf =>
    rw [Bool.not_eq_true', Bool.not_eq_false] at hf
    exact h.replaced hl (endSet_fits h hl (hv hf))

theorem paste_safe (h : b.Consistent) (ht : b.mFocus = false → TextOk str)
    (hr : b.mFocus = true → (strToUtf str).isSome = true → b.ReplaceOk) : Safe (b.paste str) := by
  unfold paste
  cases hf : b.mFocus with
  | false => exact currentSet_safe h (ht hf)
  | true => exact selectionReplace_safe h hf (hr hf)

/-! ## Navigation -/

/-- The move of one round. -/
def jumpMove (isRight : Bool) (x : ListIdx) : ListIdx := if isRight then x.inc.1 else x.dec.1

/-- The text and the positions fix the number of rounds, the index only moves along. -/
theorem cursorJumpLoop_rounds (work : U32String) (isRight : Bool) (idxStop : UInt16) (n : Nat)
    (idxAbs : UInt16) (pCursor : Nat) (pPrev : Option Nat) :
    ∃ k, (k = 0 ↔ n = 0 ∨ idxAbs = idxStop) ∧ ∀ x changed,
      cursorJumpLoop work isRight idxStop n x idxAbs pCursor pPrev changed =
        ((jumpMove isRight)^[k] x, changed || k != 0) := by
  induction n generalizing idxAbs pCursor pPrev with
  | zero => exact ⟨0, by simp, fun x changed => by simp [cursorJumpLoop]⟩
  | succ n ih =>
    by_cases hstop : idxAbs = idxStop
    · refine ⟨0, by simp [hstop], fun x changed => ?_⟩
      simp [cursorJumpLoop, hstop]
    · -- a round counts one more than the rounds after it
      have hnext : ∀ idxAbs pCursor pPrev, ∃ k, k ≠ 0 ∧ ∀ x, cursorJumpLoop work isRight idxStop n
          (jumpMove isRight x) idxAbs pCursor pPrev true = ((jumpMove isRight)^[k] x, true) := by
        intro idxAbs pCursor pPrev
        obtain ⟨k, -, hk⟩ := ih idxAbs pCursor pPrev
        exact ⟨k + 1, Nat.succ_ne_zero k, fun x => hk _ true⟩
      suffices h : ∃ k, k ≠ 0 ∧ ∀ x changed,
          cursorJumpLoop work isRight idxStop (n + 1) x idxAbs pCursor pPrev changed =
            ((jumpMove isRight)^[k] x, true) by
        obtain ⟨k, hk, hloop⟩ := h
        refine ⟨k, iff_of_false hk (by simp [hstop]), fun x changed => ?_⟩
        rw [hloop, bne_iff_ne.mpr hk, Bool.or_true]
      simp only [cursorJumpLoop, if_neg hstop]
      generalize (if isRight then idxAbs + 1 else idxAbs - 1) = idxAbs
      generalize (if isRight then pCursor + 1 else pCursor - 1) = pCursor
      generalize (if idxAbs ≠ 0 then some (pCursor - 1) else pPrev) = pPrev
      cases pPrev with
      | none =>
        obtain ⟨k, hk, hloop⟩ := hnext idxAbs pCursor none
        exact ⟨k, hk, fun x _ => hloop x⟩
      | some p =>
        dsimp only
        split
        · exact ⟨1, Nat.one_ne_zero, fun x _ => rfl⟩
        · obtain ⟨k, hk, hloop⟩ := hnext idxAbs pCursor (some p)
          exact ⟨k, hk, fun x _ => hloop x⟩

theorem jumpMove_moved (isRight : Bool) (x : ListIdx) : ListIdx.Moved x (jumpMove isRight x) := by
  cases isRight with
  | true => exact ListIdx.inc_moved x
  | false => exact ListIdx.dec_moved x

/-- A jump moves the index by single steps. -/
theorem cursorJump_rounds (b : TextBox) (key : KeyUser) :
    ∃ k, (b.cursorJump key).1 = (jumpMove (key.eqCtrl keyRight))^[k] b.mIdxFront := by
  unfold cursorJump
  split
  · exact ⟨0, rfl⟩
  · extract_lets isRight idxAbs idxStop
    obtain ⟨k, -, hk⟩ := cursorJumpLoop_rounds b.mUstrWork isRight idxStop (2 ^ 16) idxAbs
      idxAbs.toNat none
    exact ⟨k, congrArg Prod.fst (hk b.mIdxFront false)⟩

theorem cursorJump_moved (b : TextBox) (key : KeyUser) :
    ListIdx.Moved b.mIdxFront (b.cursorJump key).1 := by
  obtain ⟨k, hk⟩ := b.cursorJump_rounds key
  rw [hk]
  exact Function.Iterate.rec (ListIdx.Moved b.mIdxFront) (.refl _)
    (fun y hy => hy.trans (jumpMove_moved _ y)) k

theorem navigateFront_moved {key : KeyUser} {r : ListIdx × Bool} (h : b.navigateFront key = some r) :
    ListIdx.Moved b.mIdxFront r.1 := by
  unfold navigateFront at h
  split_ifs at h <;> cases h
  · exact ListIdx.reset_moved _
  · exact ListIdx.cursorEndSet_moved _
  · exact cursorJump_moved b key
  · exact ListIdx.dec_moved _
  · exact ListIdx.inc_moved _
  · exact ListIdx.keyProcess_moved _ _ _

/-- The keys that `navigate` handles are control keys, and none of them edits. -/
theorem navigateFront_key {key : KeyUser} {r : ListIdx × Bool} (h : b.navigateFront key = some r) :
    ∃ c, key.eqCtrl c = true ∧ c ≠ keyBackspace ∧ c ≠ keyBackspaceWin ∧ c ≠ keyDelete := by
  unfold navigateFront at h
  simp only [Bool.or_eq_true, Bool.and_eq_true] at h
  split_ifs at h with h1 h2 h3 h4 h5 h6
  · exact ⟨_, h1, by decide⟩
  · exact ⟨_, h2, by decide⟩
  · rcases h3.1 with h3 | h3 <;> exact ⟨_, h3, by decide⟩
  · rcases h4 with h4 | h4 <;> exact ⟨_, h4, by decide⟩
  · rcases h5 with h5 | h5 <;> exact ⟨_, h5, by decide⟩
  · rcases h6 with h6 | h6 <;> exact ⟨_, h6, by decide⟩

/-- After a navigation key that changed nothing, `keyProcess` does nothing more. -/
theorem keyEdit_of_navigate {key : KeyUser} {r : ListIdx × Bool} (h : b.navigateFront key = some r)
    (b' : TextBox) : b'.keyEdit key = (b', .ok false) := by
  obtain ⟨c, hc, hb, hw, hd⟩ := navigateFront_key h
  have h1 : ¬ keyIsBackspace key = true :=
    not_keyIsBackspace (KeyUser.eqCtrl_of_ne hc hb) (KeyUser.eqCtrl_of_ne hc hw)
  have h2 : ¬ key.eqCtrl keyDelete = true := KeyUser.eqCtrl_of_ne hc hd
  rw [keyEdit, if_neg h1, if_neg h2, if_pos (by rw [KeyUser.isPrint_of_eqCtrl hc]; rfl)]

/-- What `navigate` changes: the front index, and the back index along with it. -/
theorem navigate_consistent (h : b.Consistent) (key : KeyUser) : (b.navigate key).1.Consistent := by
  unfold navigate
  cases hr : b.navigateFront key with
  | none => exact h
  | some r =>
    have hm := navigateFront_moved hr
    dsimp only
    split
    · exact ⟨hm.inv h.front, h.back, h.lenMax, h.work, h.current,
        fun hf => ⟨(h.focused hf).1.moved hm, (h.focused hf).2⟩⟩
    · exact ⟨hm.inv h.front, hm.inv h.front, h.lenMax, h.work, h.current,
        fun hf => ⟨(h.focused hf).1.moved hm, (h.focused hf).1.moved hm⟩⟩

/-! ## Keys -/

/-- The test for a box without focus. -/
theorem not_unfocused (hf : b.mFocus = true) : ¬ (!b.mFocus) = true := by
  rw [hf]
  exact Bool.false_ne_true

theorem Consistent.dirtySet (h : b.Consistent) : Safe b.dirtySet :=
  ⟨⟨h.front, h.back, h.lenMax, h.work, h.current, h.focused⟩, by simp [TextBox.dirtySet]⟩

theorem replaceDirty_safe (h : b.Consistent) (hf : b.mFocus = true)
    (hm : (strToUtf str).isSome = true → b.ReplaceOk) : Safe (b.replaceDirty str) := by
  have hs := selectionReplace_safe h hf hm
  unfold replaceDirty
  split
  · next hr => exact ⟨by rw [hr] at hs; exact hs.1, by rw [hr] at hs; simpa using hs.2⟩
  · next hr => exact Consistent.dirtySet (by rw [hr] at hs; exact hs.1)

/-- `clipboardSet` stores a text or throws, and changes nothing else. -/
theorem clipboardSet_cases (b : TextBox) :
    (∃ str, b.clipboardSet = ({ b with mClipboard := str }, .ok ()) ∧
      (b.mFocus = true → (utfToStr b.selected).isSome = true)) ∨
    ∃ e, b.clipboardSet = (b, .error e) ∧ b.mFocus = true ∧
      (e = .outOfRange → b.mUstrWork.length < b.listIdxLow.cursorAbs.toNat) := by
  unfold clipboardSet
  split
  · next hf =>
    rw [Bool.not_eq_true'] at hf
    exact .inl ⟨_, rfl, fun hf' => absurd hf (by rw [hf']; decide)⟩
  · next hf =>
    rw [Bool.not_eq_true', Bool.not_eq_false] at hf
    unfold substr
    split
    · next e he =>
      split at he
      · cases he
      · cases he
        exact .inr ⟨_, rfl, hf, fun _ => by omega⟩
    · next ustr hs =>
      split at hs
      · cases hs
        cases hu : utfToStr b.selected with
        | none => exact .inr ⟨.rangeError, by rw [selected] at hu; rw [hu], hf, nofun⟩
        | some str => exact .inl ⟨str, by rw [selected] at hu; rw [hu], fun _ => rfl⟩
      · cases hs

/-- On a consistent box it throws `range_error` only. -/
theorem Consistent.clipboardSet_error (h : b.Consistent) {e : Exn}
    (he : b.clipboardSet = (b, .error e)) : e ≠ .outOfRange := by
  rcases clipboardSet_cases b with ⟨str, hc, -⟩ | ⟨e', hc, hf, ho⟩
  · cases congrArg Prod.snd (he.symm.trans hc)
  · cases congrArg Prod.snd (he.symm.trans hc)
    intro h'
    have := ho h'
    have := (h.fitsText hf).low_add_selectionLen_le
    omega

theorem Consistent.clipboard (h : b.Consistent) (str : StdString) :
    Consistent { b with mClipboard := str } :=
  ⟨h.front, h.back, h.lenMax, h.work, h.current, h.focused⟩

theorem keyCut_safe (h : b.Consistent)
    (hm : b.mFocus = true → (utfToStr b.selected).isSome = true → b.ReplaceOk) :
    Safe b.keyCut := by
  unfold keyCut
  rcases clipboardSet_cases b with ⟨str, hc, hu⟩ | ⟨e, hc, -⟩
  · simp only [hc]
    split
    · next hf =>
      rw [Bool.not_eq_true'] at hf
      exact Consistent.dirtySet ⟨h.front, h.back, h.lenMax, h.work, by simp,
        fun hf' => absurd hf (by rw [show b.mFocus = true from hf']; decide)⟩
    · next hf =>
      rw [Bool.not_eq_true', Bool.not_eq_false] at hf
      exact replaceDirty_safe (h.clipboard str) hf fun _ => hm hf (hu hf)
  · simp only [hc]
    exact ⟨h, by simpa using h.clipboardSet_error hc⟩

theorem keyCopy_safe (h : b.Consistent) : Safe b.keyCopy := by
  unfold keyCopy
  rcases clipboardSet_cases b with ⟨str, hc, -⟩ | ⟨e, hc, -⟩
  · simp only [hc]
    exact ⟨h.clipboard str, by simp⟩
  · simp only [hc]
    exact ⟨h, by simpa using h.clipboardSet_error hc⟩

theorem keySelectAll_safe (h : b.Consistent) : Safe b.keySelectAll :=
  ⟨⟨ListIdx.cursorEndSet_repInv h.front, ListIdx.reset_repInv h.back, h.lenMax, h.work, h.current,
      fun hf => ⟨(h.focused hf).1.moved (ListIdx.cursorEndSet_moved _),
        (h.focused hf).2.moved (ListIdx.reset_moved _)⟩⟩,
    by simp [keySelectAll]⟩

theorem keyBackspaceProcess_safe (h : b.Consistent) (hf : b.mFocus = true)
    (hm : b.isSelection = true → b.ReplaceOk) : Safe b.keyBackspaceProcess := by
  have hfit := (h.focused hf).1
  unfold keyBackspaceProcess
  split
  · next hs => exact replaceDirty_safe h hf fun _ => hm hs
  · by_cases h0 : b.mIdxFront.cursorAbs = 0
    · rw [ListIdx.prevErase, if_pos h0]
      exact ⟨h, by simp⟩
    · have hp := hfit.prevErase h0
      have hr : b.mIdxFront.prevErase.2 = true := by rw [ListIdx.prevErase, if_neg h0]
      rw [ListIdx.toNat_eq_zero] at h0
      have hn := hfit.cursorAbs_le
      obtain ⟨work, hw, hl⟩ := eraseAt_ok b.mUstrWork b.mIdxFront.prevErase.1.cursorAbs.toNat 1
        (by have := hp.cursorAbs_le; omega)
      rw [← hl] at hp
      have := h.work
      simp only [hr, Bool.not_true, Bool.false_eq_true, if_false, hw]
      exact (h.replaced (by omega) hp).dirtySet

theorem keyDeleteProcess_safe (h : b.Consistent) (hf : b.mFocus = true)
    (hm : b.isSelection = true → b.ReplaceOk) : Safe b.keyDeleteProcess := by
  have hfit := (h.focused hf).1
  have hn := hfit.cursorAbs_le
  have hs := hfit.size_eq
  unfold keyDeleteProcess
  split
  · next hs => exact replaceDirty_safe h hf fun _ => hm hs
  · split
    · exact ⟨h, by simp⟩
    · next hne =>
      rw [← UInt32.toNat_inj, UInt32.toNat_sub, UInt32.toNat_one, ListIdx.size] at hne
      have := b.mIdxFront.mSize.toNat_lt
      have hp := hfit.currErase (by omega)
      have hr : b.mIdxFront.currErase.2 = true := by
        rw [ListIdx.currErase, if_neg (by rw [ListIdx.toNat_eq_zero]; omega)]
      obtain ⟨work, hw, hl⟩ := eraseAt_ok b.mUstrWork b.mIdxFront.cursorAbs.toNat 1 (by omega)
      rw [← hl] at hp
      have := h.work
      simp only [hr, Bool.not_true, Bool.false_eq_true, if_false, hw]
      exact (h.replaced (by omega) hp).dirtySet

theorem keyPrintProcess_safe (h : b.Consistent) (hf : b.mFocus = true) {key : KeyUser}
    (hm : b.isSelection = true → key.utf8.isSome = true →
      ¬ (b.mNumbersOnly && (key.ltChar '0'.val || key.gtChar '9'.val)) = true → b.ReplaceOk) :
    Safe (b.keyPrintProcess key) := by
  have hfit := (h.focused hf).1
  have hmax := h.lenMax
  unfold keyPrintProcess
  split
  · exact ⟨h, by simp⟩
  · next hnum =>
    split
    · next hs =>
      split
      · exact ⟨h, by simp⟩
      · next str hu => exact replaceDirty_safe h hf fun _ => hm hs (by rw [hu]; rfl) hnum
    · split
      · exact ⟨h, by simp⟩
      · next hfull =>
        obtain ⟨work, hw, hl⟩ := insertAt_ok hfit.cursorAbs_le [key.mPrint]
        have hi := hfit.insert (by omega)
        rw [List.length_singleton] at hl
        rw [← hl] at hi
        simp only [hw]
        exact (h.replaced (by omega) hi).dirtySet

theorem keyEdit_safe (h : b.Consistent) (hf : b.mFocus = true) {key : KeyUser}
    (hm : b.Replaces key → b.ReplaceOk) : Safe (b.keyEdit key) := by
  unfold keyEdit
  split
  · next hk => exact keyBackspaceProcess_safe h hf fun hs => hm ⟨hf, .inr ⟨hs, .inl hk⟩⟩
  · split
    · next hk => exact keyDeleteProcess_safe h hf fun hs => hm ⟨hf, .inr ⟨hs, .inr (.inl hk)⟩⟩
    · split
      · exact ⟨h, by simp⟩
      · next hk =>
        rw [Bool.not_eq_true', Bool.not_eq_false] at hk
        exact keyPrintProcess_safe h hf fun hs hu hnum =>
          hm ⟨hf, .inr ⟨hs, .inr (.inr ⟨hk, hu, hnum⟩)⟩⟩

theorem keyProcess_safe (h : b.Consistent) {key : KeyUser} (hm : b.Replaces key → b.ReplaceOk) :
    Safe (b.keyProcess key) := by
  have hd : Consistent { b with mDirty := false } :=
    ⟨h.front, h.back, h.lenMax, h.work, h.current, h.focused⟩
  unfold keyProcess
  dsimp only
  split
  · next hk => exact keyCut_safe hd fun hf hu => hm ⟨hf, .inl ⟨hk, hu⟩⟩
  · split
    · exact keyCopy_safe hd
    · split
      · exact ⟨hd, by simp⟩
      · next hf =>
        rw [Bool.not_eq_true', Bool.not_eq_false] at hf
        split
        · exact keySelectAll_safe hd
        · have hn := navigate_consistent hd key
          split
          · exact hn.dirtySet
          · cases hr : navigateFront { b with mDirty := false } key with
            | none =>
              simp only [navigate, hr]
              exact keyEdit_safe hd hf hm
            | some r =>
              rw [keyEdit_of_navigate hr]
              exact ⟨hn, by simp⟩

/-! ## Runs -/

theorem step_safe (h : b.Consistent) {op : Op} (hop : b.StepOk op) : Safe (b.step op) := by
  have map_ne {α β : Type} {f : α → β} {r : Except Exn α} (hr : r ≠ .error .outOfRange) :
      r.map f ≠ .error .outOfRange := by
    cases r with
    | ok a => simp [Except.map]
    | error e => simpa [Except.map] using hr
  cases op with
  | widthSet width => exact ⟨widthSet_safe h hop, by simp [step]⟩
  | lenMaxSet lenMax =>
    exact ⟨⟨h.front, h.back, lenMax.toNat_lt, h.work, h.current, h.focused⟩, by simp [step]⟩
  | cursorBoundSet bnd => exact ⟨cursorBoundSet_safe h bnd, by simp [step]⟩
  | passwordModeSet mode =>
    exact ⟨⟨h.front, h.back, h.lenMax, h.work, h.current, h.focused⟩, by simp [step]⟩
  | numbersOnlySet only =>
    exact ⟨⟨h.front, h.back, h.lenMax, h.work, h.current, h.focused⟩, by simp [step]⟩
  | focusSet foc accept => exact ⟨(focusSet_safe h hop).1, map_ne (focusSet_safe h hop).2⟩
  | selectionSet idxStart len => exact ⟨selectionSet_safe h idxStart len, by simp [step]⟩
  | frameEnabledSet val =>
    exact ⟨widthSet_safe (b := { b with mFrameEnabled := val })
      ⟨h.front, h.back, h.lenMax, h.work, h.current, h.focused⟩ hop, by simp [step]⟩
  | paddingEnabledSet val =>
    exact ⟨widthSet_safe (b := { b with mPaddingEnabled := val })
      ⟨h.front, h.back, h.lenMax, h.work, h.current, h.focused⟩ hop, by simp [step]⟩
  | cursorShow val =>
    exact ⟨⟨h.front, h.back, h.lenMax, h.work, h.current, h.focused⟩, by simp [step]⟩
  | currentSet str => exact ⟨(currentSet_safe h hop).1, map_ne (currentSet_safe h hop).2⟩
  | ustrWorkSet ustr => exact ⟨ustrWorkSet_safe h hop.1 hop.2, by simp [step]⟩
  | paste str => exact ⟨(paste_safe h hop.1 hop.2).1, map_ne (paste_safe h hop.1 hop.2).2⟩
  | keyProcess key => exact ⟨(keyProcess_safe h hop).1, map_ne (keyProcess_safe h hop).2⟩
  | dirty => exact ⟨⟨h.front, h.back, h.lenMax, h.work, h.current, h.focused⟩, by simp [step]⟩
  | clipboard clear =>
    refine ⟨?_, by simp [step]⟩
    cases clear with
    | true => exact h.clipboard _
    | false => exact h

/-- The constructor leaves one position in a window of ten. -/
theorem new_eq : new = { mIdxFront := (ListIdx.winSet {} 10).sizeSet 1,
                         mIdxBack := (ListIdx.winSet {} 10).sizeSet 1 } := by
  simp only [new, currentSet, strToUtf_empty]
  rfl

theorem new_consistent : new.Consistent := by
  have hw : ((ListIdx.winSet {} 10).sizeSet 1).RepInv :=
    ListIdx.sizeSet_repInv (ListIdx.winSet_repInv ListIdx.empty_repInv (by decide)) 1
  rw [new_eq]
  exact ⟨hw, hw, by decide, by decide, by decide, nofun⟩

/-- The states of the runs whose calls meet `StepOk`. -/
def Reached : TextBox → Prop :=
  Transition.Reachable (· = new) (Transition.guarded StepOk (Transition.ofFun apply))

theorem Reached.apply (h : Reached b) (op : Op) (hop : b.StepOk op) : Reached (b.apply op) :=
  Transition.Reachable.apply op h hop

theorem Reached.consistent (h : Reached b) : b.Consistent :=
  h.invariant (fun _ hs => by rw [hs]; exact new_consistent)
    fun s op t hs ht => by
      obtain ⟨hok, rfl⟩ := ht
      exact (step_safe hs hok).1

/-- What the editor relies on: sizes and cursors of both indexes. -/
def Agrees (b : TextBox) : Prop :=
  b.mFocus = true →
    (b.mIdxFront.size.toNat = b.mUstrWork.length + 1 ∧
      b.mIdxBack.size.toNat = b.mUstrWork.length + 1) ∧
    b.mIdxFront.cursorAbs.toNat ≤ b.mUstrWork.length ∧
    b.mIdxBack.cursorAbs.toNat ≤ b.mUstrWork.length

instance (b : TextBox) : Decidable b.ReplaceOk := inferInstanceAs (Decidable (_ ≤ _))

instance (b : TextBox) : Decidable b.Agrees := inferInstanceAs (Decidable (_ → _))

/-- In every run whose calls meet `StepOk`, the indexes of the focused box agree with its
text in every state, and no further such call uses a position outside the text. -/
theorem agreement (h : Reached b) :
    b.Agrees ∧ ∀ op, b.StepOk op → (b.step op).2 ≠ .error .outOfRange := by
  have hc := h.consistent
  refine ⟨fun hf => ?_, fun op hop => (step_safe hc hop).2⟩
  obtain ⟨hfr, hbk⟩ := hc.focused hf
  exact ⟨⟨hfr.size_eq, hbk.size_eq⟩, hfr.cursorAbs_le, hbk.cursorAbs_le⟩

/-- The selected `b` of `abc` is erased. -/
theorem agreement_backspace :
    (new.run [.focusSet true false, .ustrWorkSet [97, 98, 99], .selectionSet 1 1]).Agrees ∧
    ((new.run [.focusSet true false, .ustrWorkSet [97, 98, 99], .selectionSet 1 1]).step
      (.keyProcess (.ofCtrl keyBackspace))).2 ≠ .error .outOfRange :=
  have hw (ops : List Op) (h : (new.run ops).mIdxFront.mWin = 10) (n : Nat) :
      (new.run ops).ViewOk n := fun h0 => absurd (h.symm.trans h0) (by decide)
  have hr : Reached (new.run [.focusSet true false, .ustrWorkSet [97, 98, 99], .selectionSet 1 1]) :=
    ((Reached.apply (.start rfl) (.focusSet true false)
      fun _ => hw [] (by rw [new_eq]; decide) _).apply (.ustrWorkSet [97, 98, 99])
      ⟨by decide, fun _ => hw [.focusSet true false] (by rw [new_eq]; decide) _⟩).apply
      (.selectionSet 1 1) trivial
  ⟨(agreement hr).1, (agreement hr).2 _ fun _ => by rw [new_eq]; decide⟩

/-! ## The two defects -/

/-- Behind an overlong text, whatever is inserted goes to the text, and the index
is brought to the positions of a text of `mLenMax` code points. -/
theorem selectionReplace_overlong (h : b.Consistent) (hf : b.mFocus = true) {ustr : U32String}
    (hu : strToUtf str = some ustr) (hl : ustr.length < 2 ^ 32) (hr : ¬ b.ReplaceOk) :
    ¬ (b.selectionReplace str).1.Agrees := by
  obtain ⟨work, idx, hc, hlen, hi⟩ := selectionClear_ok h hf
  have hw := h.work
  have hmax := h.lenMax
  have hn : b.mLenMax < work.length := by
    rw [ReplaceOk] at hr
    omega
  have hsub : sizeSub (min (work.length + ustr.length) b.mLenMax) work.length =
      2 ^ 64 - (work.length - b.mLenMax) := by
    rw [sizeSub]
    omega
  obtain ⟨work', hw', hl'⟩ := insertAt_ok hi.cursorAbs_le
    (ustr.take (2 ^ 64 - (work.length - b.mLenMax)))
  simp only [selectionReplace, hc, selectionInsert, hu, hsub, hw']
  intro ha
  have hs := (ha hf).1.1
  have hsz := hi.size_eq
  simp only [ListIdx.size, ListIdx.iterate_insert_mSize, UInt32.toNat_add, UInt32.toNat_ofNat',
    hsz] at hs
  omega

/-- An empty window that has scrolled past the new text stops one behind its end. -/
theorem focusSet_scrolled (h : b.Consistent) (hv : ¬ b.ViewOk b.mUstrCurrent.length)
    (accept : Bool) : ¬ (b.focusSet true accept).1.Agrees := by
  obtain ⟨hw, ho⟩ := Classical.not_imp.mp hv
  have hn := sizeToU32_succ h.current
  have hwin : (b.mIdxFront.assign (sizeToU32 (b.mUstrCurrent.length + 1))).mWin = 0 :=
    (ListIdx.sizeSet_mWin _ _).trans hw
  have hoff := ListIdx.sanityCheck_offset_of_win_zero (x := { b.mIdxFront with
    mSize := sizeToU32 (b.mUstrCurrent.length + 1) }) hw
  have hinv := ListIdx.sizeSet_repInv h.front (sizeToU32 (b.mUstrCurrent.length + 1))
  have habs := hinv.cursorAbs_of_win_zero hwin
  intro ha
  have hc := (ha rfl).2.1
  simp only [focusSet, if_true, ListIdx.cursorEndSet, hwin, true_or] at hc
  simp only [ListIdx.sizeSet] at habs
  simp only [ListIdx.assign, ListIdx.sizeSet, habs, hoff, hn] at hc
  omega

/-- Three code points under a limit of two: the paste of an empty text takes a position
away. Ten code points in an empty window: a text of two leaves the cursor behind its
end, where the next character cannot be inserted. -/
theorem agreement_fails :
    ¬ (new.run [.lenMaxSet 2, .focusSet true false, .ustrWorkSet [97, 98, 99],
        .paste ByteArray.empty]).Agrees ∧
    ¬ (new.run [.widthSet 10, .focusSet true false, .ustrWorkSet (List.replicate 10 97),
        .widthSet 4, .ustrWorkSet [97, 98]]).Agrees ∧
    ((new.run [.widthSet 10, .focusSet true false, .ustrWorkSet (List.replicate 10 97),
        .widthSet 4, .ustrWorkSet [97, 98]]).step (.keyProcess (.ofChar 99))).2 =
      .error .outOfRange := by
  refine ⟨?_, ?_, ?_⟩
  · have hw (ops : List Op) (h : (new.run ops).mIdxFront.mWin = 10) (n : Nat) :
        (new.run ops).ViewOk n := fun h0 => absurd (h.symm.trans h0) (by decide)
    have hr : Reached (new.run [.lenMaxSet 2, .focusSet true false, .ustrWorkSet [97, 98, 99]]) :=
      ((Reached.apply (.start rfl) (.lenMaxSet 2) trivial).apply (.focusSet true false)
        fun _ => hw [.lenMaxSet 2] (by rw [new_eq]; decide) _).apply (.ustrWorkSet [97, 98, 99])
        ⟨by decide, fun _ => hw [.lenMaxSet 2, .focusSet true false] (by rw [new_eq]; decide) _⟩
    have hover := selectionReplace_overlong hr.consistent (by rw [new_eq]; decide) strToUtf_empty
      (by decide) (by rw [new_eq]; decide)
    exact hover
  · rw [new_eq]
    decide
  · rw [new_eq]
    decide

end TextBox
end ProcessingCommon
