import ProcessingCommon.Lib.Transition
import ProcessingCommon.TextBox.Desk
import ProcessingCommon.TextBox.Editing
import ProcessingCommon.TextBox.Indexes
import ProcessingCommon.TextBox.RejectedInput
import ProcessingCommon.TextBox.Session

/-!
# The box is a desk

A focused box with a window does to its text, its selection and its clipboard what the desk does,
key by key and paste by paste. The one condition is on the view: where a selection is cut out of a
scrolled text, the resize of the lower index must not overshoot.
-/

namespace ProcessingCommon

namespace ListIdx

variable {P Q : ListIdx → Prop}

theorem Kept.and (hp : Kept P) (hq : Kept Q) : Kept fun x => P x ∧ Q x where
  sizeSet h size := ⟨hp.sizeSet h.1 size, hq.sizeSet h.2 size⟩
  cursorBoundSet h bnd := ⟨hp.cursorBoundSet h.1 bnd, hq.cursorBoundSet h.2 bnd⟩
  reset h := ⟨hp.reset h.1, hq.reset h.2⟩
  cursorEndSet h := ⟨hp.cursorEndSet h.1, hq.cursorEndSet h.2⟩
  inc h := ⟨hp.inc h.1, hq.inc h.2⟩
  dec h := ⟨hp.dec h.1, hq.dec h.2⟩
  decOffset h := ⟨hp.decOffset h.1, hq.decOffset h.2⟩
  incCursor h := ⟨hp.incCursor h.1, hq.incCursor h.2⟩

/-- The jump size is no business of the single steps. -/
theorem kept_sizeJump (Q : UInt32 → Prop) : Kept fun x => Q x.mSizeJump where
  sizeSet h size := (sizeSet_same _ size).sizeJump.symm ▸ h
  cursorBoundSet {x} h bnd := by
    have hsame : (x.cursorBoundSet bnd).mSizeJump = x.mSizeJump := by
      unfold cursorBoundSet
      split <;> rfl
    exact hsame.symm ▸ h
  reset h := h
  cursorEndSet h := (cursorEndSet_same _).sizeJump.symm ▸ h
  inc h := (inc_same _).sizeJump.symm ▸ h
  dec h := (dec_same _).sizeJump.symm ▸ h
  decOffset h := (decOffset_same _).sizeJump.symm ▸ h
  incCursor h := (incCursor_same _).sizeJump.symm ▸ h

/-- An index with a window whose jumps have the size that no text box changes. -/
def Steady (x : ListIdx) : Prop := 0 < x.mWin.toNat ∧ x.mSizeJump = dDefaultSizeJump

theorem kept_steady : Kept Steady := (kept_win fun w => 0 < w.toNat).and (kept_sizeJump (· = _))

end ListIdx

namespace TextBox

open ListIdx

variable {b : TextBox} {d : Desk} {key : KeyUser} {str : StdString} {ustr : U32String} {α : Type}

/-! ## What is on the desk -/

/-- The text and both cursors. -/
structure Displays (b : TextBox) (e : SelectionEditor Char32) : Prop where
  text : b.mUstrWork = e.text
  front : b.mIdxFront.cursorAbs.toNat = e.cursor
  back : b.mIdxBack.cursorAbs.toNat = e.anchor

/-- The focused box stands for the desk. -/
structure Serves (b : TextBox) (d : Desk) : Prop where
  consistent : b.Consistent
  focus : b.mFocus = true
  indexes : b.Indexes Steady
  lenMax : b.mLenMax = d.lenMax
  numbersOnly : b.mNumbersOnly = d.numbersOnly
  clipboard : b.mClipboard = d.clipboard
  displays : b.Displays d.editor
  length_le : d.editor.text.length ≤ d.lenMax

/-- A call has left the box with what is on the desk, and has thrown what the desk has thrown. -/
structure Answers (r : Result α) (o : Desk × Except Exn Unit) : Prop where
  displays : r.1.Displays o.1.editor
  clipboard : r.1.mClipboard = o.1.clipboard
  outcome : r.2.map (fun _ => ()) = o.2

/-- No cut moves the lower cursor. -/
def CutsInPlace (b : TextBox) : Prop :=
  b.isSelection = true → ¬ b.listIdxLow.Overshoots (sizeToU32 (b.remaining.length + 1))

instance (b : TextBox) : Decidable b.CutsInPlace := inferInstanceAs (Decidable (_ → _))

/-! ## Positions -/

namespace Serves

theorem clean (h : b.Serves d) (dirty : Bool) : Serves { b with mDirty := dirty } d :=
  ⟨⟨h.consistent.front, h.consistent.back, h.consistent.lenMax, h.consistent.work,
    h.consistent.current, h.consistent.focused⟩, h.focus, h.indexes, h.lenMax, h.numbersOnly,
    h.clipboard, ⟨h.displays.text, h.displays.front, h.displays.back⟩, h.length_le⟩

theorem editable (h : b.Serves d) : b.Editable :=
  h.consistent.editable h.focus h.indexes.1.1 h.indexes.2.1

theorem front_refines (h : b.Serves d) :
    b.mIdxFront.Refines ⟨d.editor.text.length + 1, d.editor.cursor, by
      have := d.editor.cursor_le
      omega⟩ :=
  ⟨h.consistent.front, h.indexes.1.1, by rw [h.editable.size_front, h.displays.text],
    h.displays.front⟩

theorem back_refines (h : b.Serves d) :
    b.mIdxBack.Refines ⟨d.editor.text.length + 1, d.editor.anchor, by
      have := d.editor.anchor_le
      omega⟩ :=
  ⟨h.consistent.back, h.indexes.2.1, by rw [h.editable.size_back, h.displays.text],
    h.displays.back⟩

theorem isSelection_iff (h : b.Serves d) :
    b.isSelection = true ↔ d.editor.anchor ≠ d.editor.cursor := by
  rw [isSelection, bne_iff_ne, ne_eq, ← UInt32.toNat_inj, h.displays.front, h.displays.back]
  exact ne_comm

theorem low_eq (h : b.Serves d) : b.listIdxLow.cursorAbs.toNat = d.editor.low := by
  have hfront := h.displays.front
  have hback := h.displays.back
  rw [listIdxLow, SelectionEditor.low]
  split
  · next hgt =>
    rw [gt_iff_lt, UInt32.lt_iff_toNat_lt] at hgt
    omega
  · next hle =>
    rw [gt_iff_lt, UInt32.lt_iff_toNat_lt] at hle
    omega

theorem high_eq (h : b.Serves d) : b.listIdxHigh.cursorAbs.toNat = d.editor.high := by
  have hfront := h.displays.front
  have hback := h.displays.back
  rw [listIdxHigh, SelectionEditor.high]
  split
  · next hgt =>
    rw [gt_iff_lt, UInt32.lt_iff_toNat_lt] at hgt
    omega
  · next hle =>
    rw [gt_iff_lt, UInt32.lt_iff_toNat_lt] at hle
    omega

theorem selectionLen_eq (h : b.Serves d) : b.selectionLen = d.editor.high - d.editor.low := by
  have hsum := low_add_selectionLen b
  rw [h.low_eq, h.high_eq] at hsum
  omega

theorem selected_eq (h : b.Serves d) : b.selected = d.editor.selected := by
  rw [selected, SelectionEditor.selected, h.displays.text, h.low_eq, h.selectionLen_eq]

theorem remaining_eq (h : b.Serves d) : b.remaining = d.editor.rest := by
  rw [remaining, SelectionEditor.rest, h.displays.text, h.low_eq, h.selectionLen_eq,
    Nat.add_sub_cancel' d.editor.low_le_high]

theorem replaceOk (h : b.Serves d) : b.ReplaceOk := by
  have := h.length_le
  rw [ReplaceOk, h.displays.text, h.lenMax]
  omega

/-- An index that is not resized does not overshoot. -/
theorem not_overshoots (h : b.Serves d) (hcut : b.CutsInPlace) :
    ¬ b.listIdxLow.Overshoots (sizeToU32 (b.remaining.length + 1)) := by
  by_cases hsel : b.isSelection = true
  · exact hcut hsel
  · rw [isSelection, bne_iff_ne, not_not] at hsel
    have hlow : b.listIdxLow = b.mIdxFront := by
      rw [listIdxLow, if_neg (by rw [hsel]; exact UInt32.lt_irrefl _)]
    have hedit := h.editable
    have hlen : b.selectionLen = 0 := by
      simp [selectionLen, listIdxHigh, listIdxLow, hsel]
    have hoff := hedit.front.offset_le
    have hsize := hedit.size_front
    rw [overshoots_iff, hlow, hedit.sizeToU32_remaining, hedit.remaining_length, hlen, Nat.sub_zero,
      ← hsize]
    rw [toNat_eq_zero] at hoff
    omega

/-! ## The selection is replaced -/

theorem selectionReplace (h : b.Serves d) (hcut : b.CutsInPlace) (hd : strToUtf str = some ustr) :
    Answers (b.selectionReplace str)
      ({ d with editor := d.editor.insertUpTo d.lenMax ustr }, .ok ()) := by
  obtain ⟨hok, htext, hfront, hback, -⟩ := (selectionReplace_replaced h.editable hd).mpr
    ⟨h.replaceOk, h.not_overshoots hcut⟩
  obtain ⟨n, -, heq⟩ := h.editable.selectionReplace hd
  have hnew : b.replacement ustr = ustr.take (d.lenMax - d.editor.rest.length) := by
    rw [replacement, h.lenMax, h.remaining_eq]
  rw [hnew, h.low_eq] at hfront hback
  rw [hnew, h.low_eq, h.high_eq, h.displays.text] at htext
  refine ⟨⟨htext, hfront, hback⟩, ?_, ?_⟩
  · rw [heq]
    exact h.clipboard
  · rw [hok]
    rfl

/-- Nothing is decoded from nothing, and nothing put in. -/
theorem selectionReplace_empty (h : b.Serves d) (hcut : b.CutsInPlace) :
    Answers (b.selectionReplace ByteArray.empty)
      ({ d with editor := d.editor.replace [] }, .ok ()) := by
  have hempty := h.selectionReplace hcut strToUtf_empty
  rw [SelectionEditor.insertUpTo, List.take_nil] at hempty
  exact hempty

end Serves

theorem Answers.replaceDirty {o : Desk × Except Exn Unit} (hr : Answers (b.selectionReplace str) o)
    (hok : o.2 = .ok ()) : Answers (b.replaceDirty str) o := by
  obtain ⟨hdisp, hclip, hout⟩ := hr
  unfold TextBox.replaceDirty
  split
  · next hc =>
    rw [hc, hok] at hout
    cases hout
  · next hc =>
    rw [hc] at hdisp hclip
    exact ⟨⟨hdisp.text, hdisp.front, hdisp.back⟩, hclip, hok.symm⟩

/-! ## Edits without a selection -/

theorem eraseAt_error {s : U32String} {pos len : Nat} {e : Exn}
    (h : eraseAt s pos len = .error e) : e = .outOfRange := by
  rw [eraseAt] at h
  split at h <;> cases h
  rfl

theorem insertAt_error {s t : U32String} {pos : Nat} {e : Exn}
    (h : insertAt s pos t = .error e) : e = .outOfRange := by
  rw [insertAt] at h
  split at h <;> cases h
  rfl

/-- An edit at the cursor leaves the clipboard alone and throws nothing but `out_of_range`. -/
structure AtCursor (b : TextBox) (r : Result Bool) : Prop where
  clipboard : r.1.mClipboard = b.mClipboard
  error : ∀ e, r.2 = .error e → e = .outOfRange

theorem keyBackspaceProcess_atCursor (hs : ¬ b.isSelection = true) :
    AtCursor b b.keyBackspaceProcess := by
  unfold keyBackspaceProcess
  rw [if_neg hs]
  dsimp only
  split
  · exact ⟨rfl, nofun⟩
  split
  · next herr =>
    refine ⟨rfl, fun e he => ?_⟩
    cases he
    exact eraseAt_error herr
  · exact ⟨rfl, nofun⟩

theorem keyDeleteProcess_atCursor (hs : ¬ b.isSelection = true) :
    AtCursor b b.keyDeleteProcess := by
  unfold keyDeleteProcess
  rw [if_neg hs]
  split
  · exact ⟨rfl, nofun⟩
  dsimp only
  split
  · exact ⟨rfl, nofun⟩
  split
  · next herr =>
    refine ⟨rfl, fun e he => ?_⟩
    cases he
    exact eraseAt_error herr
  · exact ⟨rfl, nofun⟩

theorem keyPrintProcess_atCursor (hs : ¬ b.isSelection = true) (key : KeyUser) :
    AtCursor b (b.keyPrintProcess key) := by
  unfold keyPrintProcess
  rw [if_neg hs]
  split
  · exact ⟨rfl, nofun⟩
  split
  · exact ⟨rfl, nofun⟩
  split
  · next herr =>
    refine ⟨rfl, fun e he => ?_⟩
    cases he
    exact insertAt_error herr
  · exact ⟨rfl, nofun⟩

/-- A safe edit of a plain editor is one of the desk. -/
theorem Serves.plain (h : b.Serves d) {r : Result Bool} {p : PlainEditor Char32}
    (hr : AtCursor b r) (hsafe : Safe r) (hshows : r.1.Shows p) :
    Answers r ({ d with editor := .ofPlain p }, .ok ()) := by
  refine ⟨⟨hshows.text, hshows.front.pos_eq, hshows.back_pos⟩, hr.clipboard.trans h.clipboard, ?_⟩
  cases hout : r.2 with
  | ok a => rfl
  | error e => exact absurd (hout.trans (congrArg _ (hr.error e hout))) hsafe.2

namespace Serves

/-- Where nothing is selected, a plain editor is shown. -/
theorem shows_plain (h : b.Serves d) (hs : ¬ b.isSelection = true) :
    ∃ p : PlainEditor Char32, .ofPlain p = d.editor ∧ b.Shows p := by
  have heq : d.editor.anchor = d.editor.cursor := not_not.mp (mt h.isSelection_iff.mpr hs)
  refine ⟨⟨d.editor.text, d.editor.cursor, d.editor.cursor_le⟩, ?_, ?_⟩
  · ext1
    · rfl
    · exact heq.symm
    · rfl
  · exact ⟨h.focus, h.consistent.lenMax, h.displays.text, h.front_refines, h.back_refines.size_eq,
      h.displays.back.trans heq⟩

theorem keyBackspaceProcess (h : b.Serves d) (hcut : b.CutsInPlace) :
    Answers b.keyBackspaceProcess ({ d with editor := d.editor.backspace }, .ok ()) := by
  by_cases hs : b.isSelection = true
  · have hne := h.isSelection_iff.mp hs
    rw [SelectionEditor.backspace, if_neg hne, TextBox.keyBackspaceProcess, if_pos hs]
    exact (h.selectionReplace_empty hcut).replaceDirty rfl
  · obtain ⟨p, hp, hshows⟩ := h.shows_plain hs
    rw [← hp, SelectionEditor.ofPlain_backspace]
    exact h.plain (keyBackspaceProcess_atCursor hs)
      (keyBackspaceProcess_safe h.consistent h.focus fun _ => h.replaceOk)
      hshows.keyBackspaceProcess

theorem keyDeleteProcess (h : b.Serves d) (hcut : b.CutsInPlace) :
    Answers b.keyDeleteProcess ({ d with editor := d.editor.delete }, .ok ()) := by
  by_cases hs : b.isSelection = true
  · have hne := h.isSelection_iff.mp hs
    rw [SelectionEditor.delete, if_neg hne, TextBox.keyDeleteProcess, if_pos hs]
    exact (h.selectionReplace_empty hcut).replaceDirty rfl
  · obtain ⟨p, hp, hshows⟩ := h.shows_plain hs
    rw [← hp, SelectionEditor.ofPlain_delete]
    exact h.plain (keyDeleteProcess_atCursor hs)
      (keyDeleteProcess_safe h.consistent h.focus fun _ => h.replaceOk)
      hshows.keyDeleteProcess

/-- Nothing has happened. -/
theorem idle (h : b.Serves d) (a : Bool) : Answers (b, .ok a) (d, .ok ()) :=
  ⟨h.displays, h.clipboard, rfl⟩

theorem keyPrintProcess (h : b.Serves d) (hp : key.isPrint = true)
    (hcut : b.Accepts key → key.utf8.isSome = true → b.CutsInPlace) :
    Answers (b.keyPrintProcess key) (if d.accepts key then d.type key.mPrint else (d, .ok ())) := by
  have hacc : d.accepts key = true ↔ b.Accepts key := by
    rw [Desk.accepts, Accepts, hp, h.numbersOnly, Bool.true_and, Bool.not_eq_true',
      Bool.eq_false_iff, ne_eq, eq_self, true_and]
  by_cases hnum : b.Accepts key
  · rw [if_pos (hacc.mpr hnum), Desk.type]
    by_cases hs : b.isSelection = true
    · have hne := h.isSelection_iff.mp hs
      have hutf : key.utf8 = utfToStr [key.mPrint] := by
        have hctrl : key.mIsCtrl = false := by
          have hk := key.kinds
          rw [show key.mIsPrint = true from hp, Bool.true_and] at hk
          exact hk
        rw [KeyUser.utf8, hctrl, if_neg Bool.false_ne_true]
      rw [TextBox.keyPrintProcess, if_neg hnum.2, if_pos hs, hutf]
      cases hstr : utfToStr [key.mPrint] with
      | none =>
        rw [if_pos ⟨hne, rfl⟩]
        exact ⟨h.displays, h.clipboard, rfl⟩
      | some str =>
        have hplace := hcut hnum (by rw [hutf, hstr]; rfl)
        rw [if_neg fun hno => Option.some_ne_none str hno.2]
        exact (h.selectionReplace hplace (strToUtf_of_utfToStr hstr)).replaceDirty rfl
    · obtain ⟨p, hp', hshows⟩ := h.shows_plain hs
      rw [if_neg fun hno => hs (h.isSelection_iff.mpr hno.1), ← hp',
        SelectionEditor.ofPlain_insertUpTo]
      have hshown := hshows.keyPrintProcess hp
      have hroom : (b.Accepts key ∧ p.text.length < b.mLenMax) ↔ p.text.length < d.lenMax := by
        rw [h.lenMax]
        exact and_iff_right hnum
      simp only [hroom] at hshown
      exact h.plain (keyPrintProcess_atCursor hs key)
        (keyPrintProcess_safe h.consistent h.focus fun _ _ _ => h.replaceOk) hshown
  · rw [if_neg (mt hacc.mp hnum)]
    have hrej : (b.mNumbersOnly && (key.ltChar '0'.val || key.gtChar '9'.val)) = true :=
      not_not.mp fun hno => hnum ⟨hp, hno⟩
    rw [TextBox.keyPrintProcess, if_pos hrej]
    exact h.idle false

/-- Every navigation key puts the front cursor where it asks for. -/
theorem navigateFront (h : b.Serves d) (hnav : isNavigation key = true) :
    ∃ r, b.navigateFront key = some r ∧
      r.1.cursorAbs.toNat = min (Desk.target d.editor key) d.editor.text.length := by
  have hx := h.front_refines
  have hle := d.editor.cursor_le
  have hsize := h.indexes.1.2
  unfold TextBox.navigateFront Desk.target
  split_ifs with hhome hend hjump hleft hright hpage hup hup
  · exact ⟨_, rfl, (reset_refines hx).1.pos_eq⟩
  · refine ⟨_, rfl, (cursorEndSet_refines hx).1.pos_eq.trans ?_⟩
    rw [ListCursor.last_pos, Nat.min_self]
    rfl
  · have hlen : b.mUstrWork.length < 2 ^ 16 := by
      rw [h.displays.text]
      exact lt_of_le_of_lt (h.lenMax ▸ h.length_le) h.consistent.lenMax
    obtain ⟨y, k, hy, ht, hjump, -⟩ := jumps_total hlen hx (by rw [h.displays.text]) key
    rw [h.displays.text] at ht
    refine ⟨_, rfl, ?_⟩
    rw [hjump, hy.pos_eq, Nat.min_eq_left (ht.eq_wordTarget hle ▸ ht.le hle)]
    exact ht.eq_wordTarget hle
  · refine ⟨_, rfl, (dec_refines hx).1.pos_eq.trans ?_⟩
    rw [ListCursor.prev_pos, Nat.min_eq_left (Nat.le_trans (Nat.sub_le _ _) hle)]
  · exact ⟨_, rfl, (inc_refines hx).1.pos_eq⟩
  · refine ⟨_, rfl, ?_⟩
    rw [keyProcess_pgUp _ hup, decJump, hsize, (jumpLoop_dec_refines _ false hx).1.pos_eq,
      ListCursor.back_pos, Nat.min_eq_left (Nat.le_trans (Nat.sub_le _ _) hle)]
  · rw [Bool.or_eq_true, or_iff_right hup] at hpage
    refine ⟨_, rfl, ?_⟩
    rw [keyProcess_pgDn _ hpage, incJump, hsize, (jumpLoop_inc_refines _ false hx).1.pos_eq]
    rfl
  all_goals
    exfalso
    simp only [isNavigation, List.any_cons, List.any_nil, Bool.or_false, Bool.or_eq_true] at hnav
    simp only [Bool.or_eq_true, not_or] at hleft hright hpage
    tauto

/-- The back cursor follows unless Shift is held. -/
theorem navigate (h : b.Serves d) (hnav : isNavigation key = true) :
    Answers (if (b.navigate key).2 then (b.navigate key).1.dirtySet
        else (b.navigate key).1.keyEdit key)
      ({ d with editor := d.editor.moveTo key.modShift (Desk.target d.editor key) }, .ok ()) := by
  obtain ⟨r, hr, hpos⟩ := h.navigateFront hnav
  have hmoved : (b.navigate key).1.Displays
      (d.editor.moveTo key.modShift (Desk.target d.editor key)) := by
    rw [TextBox.navigate, hr, SelectionEditor.moveTo]
    dsimp only
    split
    · exact ⟨h.displays.text, hpos, h.displays.back⟩
    · exact ⟨h.displays.text, hpos, hpos⟩
  have hclip : (b.navigate key).1.mClipboard = d.clipboard := by
    rw [TextBox.navigate, hr]
    dsimp only
    split <;> exact h.clipboard
  rw [keyEdit_of_navigate hr]
  split
  · exact ⟨⟨hmoved.text, hmoved.front, hmoved.back⟩, hclip, rfl⟩
  · exact ⟨hmoved, hclip, rfl⟩

theorem keySelectAll (h : b.Serves d) :
    Answers b.keySelectAll ({ d with editor := d.editor.selectAll }, .ok ()) := by
  have hfront := (cursorEndSet_refines h.front_refines).1.pos_eq
  have hback := (reset_refines h.back_refines).1.pos_eq
  exact ⟨⟨h.displays.text, hfront, hback⟩, h.clipboard, rfl⟩

/-- What the focused box takes into the clipboard. -/
theorem clipboardSet (h : b.Serves d) : b.clipboardSet =
    match utfToStr d.editor.selected with
    | none => (b, .error .rangeError)
    | some str => ({ b with mClipboard := str }, .ok ()) := by
  have hle : b.listIdxLow.cursorAbs.toNat ≤ b.mUstrWork.length := by
    rw [h.low_eq, h.displays.text]
    exact Nat.le_trans d.editor.low_le_high d.editor.high_le
  have hset := clipboardSet_focused h.focus
  rw [if_pos hle, h.selected_eq] at hset
  refine hset.trans ?_
  cases utfToStr d.editor.selected <;> rfl

theorem keyCopy (h : b.Serves d) : Answers b.keyCopy (d.take d.editor) := by
  unfold TextBox.keyCopy Desk.take
  rw [h.clipboardSet]
  cases utfToStr d.editor.selected with
  | none => exact ⟨h.displays, h.clipboard, rfl⟩
  | some str => exact ⟨⟨h.displays.text, h.displays.front, h.displays.back⟩, rfl, rfl⟩

theorem keyCut (h : b.Serves d) (hcut : (utfToStr b.selected).isSome = true → b.CutsInPlace) :
    Answers b.keyCut (d.take (d.editor.replace [])) := by
  rw [h.selected_eq] at hcut
  unfold TextBox.keyCut Desk.take
  rw [h.clipboardSet]
  cases hstr : utfToStr d.editor.selected with
  | none => exact ⟨h.displays, h.clipboard, rfl⟩
  | some str =>
    have htaken : Serves { b with mClipboard := str } { d with clipboard := str } :=
      ⟨h.consistent.clipboard str, h.focus, h.indexes, h.lenMax, h.numbersOnly, rfl,
        ⟨h.displays.text, h.displays.front, h.displays.back⟩, h.length_le⟩
    dsimp only
    rw [if_neg (not_unfocused h.focus)]
    refine (htaken.selectionReplace_empty ?_).replaceDirty rfl
    exact hcut (by rw [hstr]; rfl)

/-! ## One input -/

theorem keyEdit (h : b.Serves d) (hcut : b.Replaces key → b.CutsInPlace) :
    Answers (b.keyEdit key)
      (if keyIsBackspace key then ({ d with editor := d.editor.backspace }, .ok ())
      else if key.eqCtrl keyDelete then ({ d with editor := d.editor.delete }, .ok ())
      else if d.accepts key then d.type key.mPrint
      else (d, .ok ())) := by
  unfold TextBox.keyEdit
  split
  · next hk =>
    exact h.keyBackspaceProcess fun hs => hcut ⟨h.focus, .inr ⟨hs, .inl hk⟩⟩ hs
  split
  · next hk =>
    exact h.keyDeleteProcess fun hs => hcut ⟨h.focus, .inr ⟨hs, .inr (.inl hk)⟩⟩ hs
  split
  · next hp =>
    rw [Bool.not_eq_true'] at hp
    rw [if_neg (by rw [Desk.accepts, hp, Bool.false_and]; exact Bool.false_ne_true)]
    exact h.idle false
  · next hp =>
    rw [Bool.not_eq_true', Bool.not_eq_false] at hp
    refine h.keyPrintProcess hp fun hacc hutf hs => ?_
    exact hcut ⟨h.focus, .inr ⟨hs, .inr (.inr ⟨hp, hutf, hacc.2⟩)⟩⟩ hs

theorem keyProcess (h : b.Serves d) (hcut : b.Replaces key → b.CutsInPlace) :
    Answers (b.keyProcess key) (d.press key) := by
  have hclean := h.clean false
  unfold TextBox.keyProcess Desk.press
  dsimp only
  split
  · next hk => exact hclean.keyCut fun hu => hcut ⟨h.focus, .inl ⟨hk, hu⟩⟩
  split
  · exact hclean.keyCopy
  rw [if_neg (not_unfocused h.focus)]
  split
  · exact hclean.keySelectAll
  by_cases hnav : isNavigation key = true
  · rw [if_pos hnav]
    exact hclean.navigate hnav
  · rw [if_neg hnav, TextBox.navigate, navigateFront_none _ hnav]
    exact hclean.keyEdit hcut

theorem paste (h : b.Serves d) (hcut : b.CutsInPlace) (str : StdString) :
    Answers (b.paste str) (d.paste str) := by
  rw [TextBox.paste, if_neg (not_unfocused h.focus), Desk.paste]
  cases hd : strToUtf str with
  | some ustr => exact h.selectionReplace hcut hd
  | none =>
    -- the selection has been cut out before the text is decoded
    have hrest : (d.editor.replace []).text = d.editor.rest := by
      rw [SelectionEditor.replace_text, List.append_nil, SelectionEditor.rest]
    have hpos := (h.editable.clearedIdx_cursorAbs.mpr (h.not_overshoots hcut)).trans h.low_eq
    simp only [TextBox.selectionReplace, h.editable.selectionClear, selectionInsert, hd]
    exact ⟨⟨h.remaining_eq.trans hrest.symm, hpos, hpos⟩, h.clipboard, rfl⟩

end Serves

/-! ## Sessions -/

/-- One input, and what it threw. -/
def input (b : TextBox) : Input → TextBox × Except Exn Unit
  | .key key => ((b.keyProcess key).1, (b.keyProcess key).2.map fun _ => ())
  | .paste str => b.paste str

/-- The condition on the state before an input. -/
def InPlace (b : TextBox) : Input → Prop
  | .key key => b.Replaces key → b.CutsInPlace
  | .paste _ => b.CutsInPlace

/-- Every input keeps the box on its desk, and throws what the desk throws. -/
theorem input_serves (h : b.Serves d) {i : Input} (hi : b.InPlace i) :
    (b.input i).1.Serves (d.input i).1 ∧ (b.input i).2 = (d.input i).2 := by
  have hnext : ∀ {r : Result Unit} {o : Desk × Except Exn Unit} {ins : U32String}, Answers r o →
      r.1.Consistent → Edited ins b r.1 → r.1.Indexes Steady → d.Within o.1 → r.1.Serves o.1 := by
    intro r o ins hr hcons hedit hidx hin
    have hlen : r.1.mLenMax = b.mLenMax := (congrArg mLenMax hedit.config :)
    exact ⟨hcons, hedit.focus.trans h.focus, hidx, hlen.trans (h.lenMax.trans hin.lenMax.symm),
      hedit.numbersOnly.trans (h.numbersOnly.trans hin.numbersOnly.symm), hr.clipboard, hr.displays,
      hin.lenMax ▸ hin.length_le h.length_le⟩
  cases i with
  | key key =>
    have hr := h.keyProcess hi
    have hout : (b.input (.key key)).2.map (fun _ => ()) = (d.press key).2 := by
      rw [← hr.outcome]
      show ((b.keyProcess key).2.map fun _ => ()).map _ = _
      cases (b.keyProcess key).2 <;> rfl
    have hanswer : Answers (b.input (.key key)) (d.input (.key key)) :=
      ⟨hr.displays, hr.clipboard, hout⟩
    refine ⟨hnext hanswer ?_ (keyProcess_edited h.focus key) ?_ (d.press_within key), hr.outcome⟩
    · exact (keyProcess_safe h.consistent fun _ => h.replaceOk).1
    · exact h.indexes.keyProcess kept_steady key
  | paste str =>
    have hr := h.paste hi str
    have hout : (b.paste str).2 = (d.paste str).2 := by
      rw [← hr.outcome]
      cases (b.paste str).2 <;> rfl
    refine ⟨hnext hr ?_ (paste_edited h.focus str) (h.indexes.paste kept_steady str)
      (d.paste_within str), hout⟩
    refine (paste_safe h.consistent (fun hf => ?_) fun _ _ => h.replaceOk).1
    exact absurd (h.focus.symm.trans hf) (by decide)

/-! ### The start of a session -/

/-- No call changes the jump size. -/
theorem Reached.sizeJump (h : Reached b) :
    b.Indexes fun x => x.mSizeJump = dDefaultSizeJump := by
  have hwin : ∀ (x : ListIdx) (w : UInt32), (x.winSet w).mSizeJump = x.mSizeJump :=
    fun x w => (sanityCheck_same { x with mWin := w }).sizeJump
  have hwidth : ∀ (b : TextBox) (w : UInt16), b.Indexes (fun x => x.mSizeJump = dDefaultSizeJump) →
      (b.widthSet w).Indexes fun x => x.mSizeJump = dDefaultSizeJump := by
    intro b w hb
    unfold widthSet
    split
    · exact hb
    · exact ⟨(hwin _ _).trans hb.1, (hwin _ _).trans hb.2⟩
  refine h.invariant (P := fun b => b.Indexes fun x => x.mSizeJump = dDefaultSizeJump) ?_ ?_
  · rintro b rfl
    rw [new_eq]
    exact ⟨by decide, by decide⟩
  · rintro b op b' hb ⟨-, rfl⟩
    by_cases hop : op.isLayout = true
    · cases op with
      | widthSet width => exact hwidth b width hb
      | frameEnabledSet val => exact hwidth { b with mFrameEnabled := val } b.mWidth hb
      | paddingEnabledSet val => exact hwidth { b with mPaddingEnabled := val } b.mWidth hb
      | _ => cases hop
    · exact Indexes.apply (kept_sizeJump (· = dDefaultSizeJump)) hb (Bool.eq_false_iff.mpr hop)

/-- A focused box with a window is on a desk, as long as its text keeps the limit. -/
theorem Reached.serves (h : Reached b) (hf : b.mFocus = true) (hw : 1 ≤ b.mIdxFront.mWin.toNat)
    (hw' : 1 ≤ b.mIdxBack.mWin.toNat) (hl : b.mUstrWork.length ≤ b.mLenMax) :
    ∃ d : Desk, b.Serves d := by
  have hc := h.consistent
  have hfits := hc.fitsText hf
  refine ⟨⟨b.mLenMax, b.mNumbersOnly, ⟨b.mUstrWork, b.mIdxBack.cursorAbs.toNat,
    b.mIdxFront.cursorAbs.toNat, hfits.2.cursorAbs_le, hfits.1.cursorAbs_le⟩, b.mClipboard⟩, ?_⟩
  exact ⟨hc, hf, ⟨⟨hw, h.sizeJump.1⟩, ⟨hw', h.sizeJump.2⟩⟩, rfl, rfl, rfl, ⟨rfl, rfl, rfl⟩, hl⟩

/-- The desk at the start of a session: the committed text with the cursor behind it. -/
def deskOf (b : TextBox) : Desk where
  lenMax := b.mLenMax
  numbersOnly := b.mNumbersOnly
  editor := .ofPlain ⟨b.mUstrCurrent, b.mUstrCurrent.length, Nat.le_refl _⟩
  clipboard := b.mClipboard

/-- Both indexes of a session come from the front index. -/
theorem focusSet_indexes {P : ListIdx → Prop} (hk : Kept P) (h : P b.mIdxFront) (accept : Bool) :
    (b.apply (.focusSet true accept)).Indexes P := by
  have hfront := hk.cursorEndSet (hk.sizeSet h (sizeToU32 (b.mUstrCurrent.length + 1)))
  exact ⟨hfront, hfront⟩

theorem focusSet_serves (h : Reached b) (hw : 1 ≤ b.mIdxFront.mWin.toNat)
    (hl : b.mUstrCurrent.length ≤ b.mLenMax) :
    (b.apply (.focusSet true true)).Serves b.deskOf := by
  have hc := h.consistent
  have hview : b.ViewOk b.mUstrCurrent.length := fun h0 => by
    rw [h0] at hw
    exact absurd hw (by decide)
  have hsafe : (b.focusSet true true).1.Consistent := (focusSet_safe hc fun _ => hview).1
  have hidx := focusSet_indexes kept_steady ⟨hw, h.sizeJump.1⟩ true
  have hcount := sizeToU32_succ hc.current
  obtain ⟨c, hsize, hrefines⟩ := (sizeSet_repInv hc.front
    (sizeToU32 (b.mUstrCurrent.length + 1))).refines (by rw [sizeSet_mWin]; exact hw)
  rw [sizeSet_mSize, hcount] at hsize
  have hend := (cursorEndSet_refines hrefines).1.pos_eq
  rw [ListCursor.last_pos, hsize, Nat.add_sub_cancel] at hend
  exact ⟨hsafe, rfl, hidx, rfl, rfl, rfl, ⟨rfl, hend, hend⟩, hl⟩

/-! ### A view that shows everything -/

/-- Where the window has room for the longest text, nothing is scrolled and every cut is in
place. -/
theorem Serves.inPlace_of_wide (h : b.Serves d) (hw : d.lenMax < b.mIdxFront.mWin.toNat)
    (hw' : d.lenMax < b.mIdxBack.mWin.toNat) (i : Input) : b.InPlace i := by
  have hcut : b.CutsInPlace := by
    intro _
    have hfit := h.editable.fitsText.low
    have hoff := hfit.inv.offset_le
    have hlen := h.length_le
    have hlow : d.lenMax < b.listIdxLow.mWin.toNat := by
      unfold listIdxLow
      split
      · exact hw'
      · exact hw
    rw [hfit.size_eq, toNat_eq_zero, h.displays.text] at hoff
    rw [overshoots_iff]
    omega
  cases i with
  | key key => exact fun _ => hcut
  | paste str => exact hcut

theorem input_indexes {P : ListIdx → Prop} (hk : Kept P) (h : b.Indexes P) (i : Input) :
    (b.input i).1.Indexes P := by
  cases i with
  | key key => exact h.keyProcess hk key
  | paste str => exact h.paste hk str

theorem Serves.admissible_of_wide (h : b.Serves d) (hw : d.lenMax < b.mIdxFront.mWin.toNat)
    (hw' : d.lenMax < b.mIdxBack.mWin.toNat) (is : List Input) :
    Transition.Admissible InPlace input b is := by
  refine .of_invariant (P := fun b' => (∃ d', b'.Serves d' ∧ d'.lenMax = d.lenMax) ∧
    b'.Indexes fun x => d.lenMax < x.mWin.toNat) ?_ ⟨⟨d, h, rfl⟩, hw, hw'⟩ is
  rintro b' i ⟨⟨d', h', hlen⟩, hwide⟩
  have hin : b'.InPlace i := h'.inPlace_of_wide (hlen ▸ hwide.1) (hlen ▸ hwide.2) i
  refine ⟨hin, ⟨(d'.input i).1, (input_serves h' hin).1, ?_⟩,
    input_indexes (kept_win fun w => d.lenMax < w.toNat) hwide i⟩
  cases i with
  | key key => exact (d'.press_within key).lenMax.trans hlen
  | paste str => exact (d'.paste_within str).lenMax.trans hlen

/-! ### Typing -/

theorem Serves.accepts_iff (h : b.Serves d) (key : KeyUser) :
    d.accepts key = true ↔ b.Accepts key := by
  rw [Desk.accepts, Accepts, h.numbersOnly, Bool.and_eq_true, Bool.not_eq_true', Bool.not_eq_true]

/-- After the first character nothing is selected, so the rest is in place. -/
theorem Serves.admissible_typing (h : b.Serves d) (hcut : b.CutsInPlace) {cs : List Char}
    (hacc : ∀ c ∈ cs, d.accepts (.ofChar c.val) = true) :
    Transition.Admissible InPlace input b (Desk.typing cs) := by
  induction cs generalizing b d with
  | nil => trivial
  | cons c cs ih =>
    have hin : b.InPlace (.key (.ofChar c.val)) := fun _ => hcut
    have hnext := (input_serves h hin).1
    have hpress : (d.input (.key (.ofChar c.val))).1 =
        { d with editor := d.editor.insertUpTo d.lenMax [c.val] } := by
      show (d.press (.ofChar c.val)).1 = _
      rw [Desk.press_of_accepts (hacc c List.mem_cons_self)]
      exact congrArg Prod.fst (d.type_char c)
    rw [hpress] at hnext
    have hnone : (b.input (.key (.ofChar c.val))).1.CutsInPlace :=
      fun hs => absurd rfl (hnext.isSelection_iff.mp hs)
    exact ⟨hin, ih hnext hnone fun c' hc' => hacc c' (List.mem_cons_of_mem _ hc')⟩

/-! ### The results -/

/-- A session in a box with a window, from `focusSet(true)` over any keys and pastes to
`focusSet(false, true)`, is a session at the desk: the same text, cursors and clipboard, the same
exceptions, and the same text committed. Where the window has no room for the longest text, the
cuts have to be in place. -/
theorem session_at_desk (h : Reached b) (hw : 1 ≤ b.mIdxFront.mWin.toNat)
    (hl : b.mUstrCurrent.length ≤ b.mLenMax) (is : List Input)
    (hin : b.mLenMax < b.mIdxFront.mWin.toNat ∨
      Transition.Admissible InPlace input (b.apply (.focusSet true true)) is) :
    Transition.outputs input (b.apply (.focusSet true true)) is =
        Transition.outputs Desk.input b.deskOf is ∧
      (Transition.final input (b.apply (.focusSet true true)) is).Displays
        (Transition.final Desk.input b.deskOf is).editor ∧
      (Transition.final input (b.apply (.focusSet true true)) is).mClipboard =
        (Transition.final Desk.input b.deskOf is).clipboard ∧
      ∀ str, utfToStr (Transition.final Desk.input b.deskOf is).editor.text = some str →
        ((Transition.final input (b.apply (.focusSet true true)) is).apply
          (.focusSet false true)).current = str := by
  have hstart := focusSet_serves h hw hl
  have hadm : Transition.Admissible InPlace input (b.apply (.focusSet true true)) is := by
    rcases hin with hwide | hin
    · have hwin : (b.apply (.focusSet true true)).Indexes fun x => b.mLenMax < x.mWin.toNat :=
        focusSet_indexes (kept_win fun w => b.mLenMax < w.toNat) hwide true
      exact hstart.admissible_of_wide hwin.1 hwin.2 is
    · exact hin
  have hfinal := Transition.final_related (R := Serves) (g := Desk.input)
    (fun _ _ _ hs hi => (input_serves hs hi).1) is hstart hadm
  have hdesk : Transition.Admissible (fun _ _ => True) Desk.input b.deskOf is :=
    .of_invariant (P := fun _ => True) (fun _ _ _ => ⟨trivial, trivial⟩) trivial is
  refine ⟨?_, hfinal.displays, hfinal.clipboard, fun str hstr => ?_⟩
  · exact Transition.outputs_eq (R := Serves) (f := input) (g := Desk.input)
      (fun _ _ _ hs hi _ => input_serves hs hi) is hstart hadm hdesk
  · exact (focusSet_current _).2 str (by rw [ustrWork, hfinal.displays.text, hstr])

/-- `abc` is typed in a box that shows five positions of a text of at most four, the last two
characters are selected and `x` is pasted. -/
def lineInputs : List Input :=
  Desk.typing ['a', 'b', 'c'] ++
    List.replicate 2 (.key { KeyUser.ofCtrl keyLeft with mModShift := true }) ++
    [.paste (utf8Of ['x'])]

theorem session_at_desk_line :
    Transition.outputs input ((new.apply (.lenMaxSet 4)).apply (.focusSet true true)) lineInputs =
        Transition.outputs Desk.input (new.apply (.lenMaxSet 4)).deskOf lineInputs ∧
      (Transition.final input ((new.apply (.lenMaxSet 4)).apply (.focusSet true true))
          lineInputs).Displays
        (Transition.final Desk.input (new.apply (.lenMaxSet 4)).deskOf lineInputs).editor ∧
      (Transition.final input ((new.apply (.lenMaxSet 4)).apply (.focusSet true true))
          lineInputs).mClipboard =
        (Transition.final Desk.input (new.apply (.lenMaxSet 4)).deskOf lineInputs).clipboard ∧
      ∀ str, utfToStr (Transition.final Desk.input (new.apply (.lenMaxSet 4)).deskOf
          lineInputs).editor.text = some str →
        ((Transition.final input ((new.apply (.lenMaxSet 4)).apply (.focusSet true true))
          lineInputs).apply (.focusSet false true)).current = str :=
  session_at_desk (Reached.apply (.start rfl) (.lenMaxSet 4) trivial) (by rw [new_eq]; decide)
    (by rw [new_eq]; decide) lineInputs (.inl (by rw [new_eq]; decide))

/-- Two boxes show the same. -/
structure SameDisplay (b b' : TextBox) : Prop where
  text : b.mUstrWork = b'.mUstrWork
  front : b.cursorAbsFront = b'.cursorAbsFront
  back : b.cursorAbsBack = b'.cursorAbsBack

theorem Displays.same {b' : TextBox} {e : SelectionEditor Char32} (h : b.Displays e)
    (h' : b'.Displays e) : SameDisplay b b' where
  text := h.text.trans h'.text.symm
  front := UInt32.toNat_inj.mp (h.front.trans h'.front.symm)
  back := UInt32.toNat_inj.mp (h.back.trans h'.back.symm)

/-- Where a selection can be cut out in place, the characters of a text that are typed one by one
and the same text pasted leave the same text and the same cursors. -/
theorem typing_is_pasting (h : Reached b) (hf : b.mFocus = true)
    (hw : 1 ≤ b.mIdxFront.mWin.toNat) (hw' : 1 ≤ b.mIdxBack.mWin.toNat)
    (hl : b.mUstrWork.length ≤ b.mLenMax) (hcut : b.CutsInPlace) {cs : List Char} (hne : cs ≠ [])
    (hacc : ∀ c ∈ cs, b.Accepts (.ofChar c.val)) :
    SameDisplay (Transition.final input b (Desk.typing cs)) (b.paste (utf8Of cs)).1 := by
  obtain ⟨d, hd⟩ := h.serves hf hw hw' hl
  have haccepts : ∀ c ∈ cs, d.accepts (.ofChar c.val) = true :=
    fun c hc => (hd.accepts_iff _).mpr (hacc c hc)
  have htyped := Transition.final_related (R := Serves) (g := Desk.input)
    (fun _ _ _ hs hi => (input_serves hs hi).1) _ hd (hd.admissible_typing hcut haccepts)
  have hpasted := (input_serves hd (i := .paste (utf8Of cs)) hcut).1
  rw [Desk.final_typing_paste hne haccepts] at htyped
  exact htyped.displays.same hpasted.displays

/-- `abc` with the `b` selected. -/
def middleSelected : TextBox :=
  new.run [.focusSet true false, .ustrWorkSet [97, 98, 99], .selectionSet 1 1]

theorem middleSelected_reached : Reached middleSelected := by
  have hview : ∀ (ops : List Op), (new.run ops).mIdxFront.mWin = 10 → ∀ n, (new.run ops).ViewOk n :=
    fun ops h n h0 => absurd (h.symm.trans h0) (by decide)
  exact ((Reached.apply (.start rfl) (.focusSet true false)
    fun _ => hview [] (by rw [new_eq]; decide) _).apply (.ustrWorkSet [97, 98, 99])
    ⟨by decide, fun _ => hview [.focusSet true false] (by rw [new_eq]; decide) _⟩).apply
    (.selectionSet 1 1) trivial

theorem typing_is_pasting_middle :
    SameDisplay (Transition.final input middleSelected (Desk.typing ['x', 'y']))
      (middleSelected.paste (utf8Of ['x', 'y'])).1 := by
  refine typing_is_pasting middleSelected_reached ?_ ?_ ?_ ?_ ?_ (by decide)
    (List.forall_mem_cons.mpr ⟨?_, List.forall_mem_singleton.mpr ?_⟩)
  all_goals
    rw [middleSelected, new_eq]
    decide

/-- Ctrl-X takes the selection out of the text and into the clipboard, and the paste of the
clipboard puts it back; both cursors end behind it. -/
theorem cut_and_paste (h : Reached b) (hf : b.mFocus = true) (hw : 1 ≤ b.mIdxFront.mWin.toNat)
    (hw' : 1 ≤ b.mIdxBack.mWin.toNat) (hl : b.mUstrWork.length ≤ b.mLenMax) (hcut : b.CutsInPlace)
    (hs : utfToStr b.selected = some str) (hk : key.eqCtrl keyCtrlX = true) :
    (b.keyProcess key).1.mUstrWork = b.remaining ∧ (b.keyProcess key).1.mClipboard = str ∧
      ((b.keyProcess key).1.paste str).1.mUstrWork = b.mUstrWork ∧
      ((b.keyProcess key).1.paste str).1.mIdxFront.cursorAbs = b.listIdxHigh.cursorAbs ∧
      ((b.keyProcess key).1.paste str).1.mIdxBack.cursorAbs = b.listIdxHigh.cursorAbs := by
  obtain ⟨d, hd⟩ := h.serves hf hw hw' hl
  rw [hd.selected_eq] at hs
  have hpress : d.press key = d.take (d.editor.replace []) := if_pos hk
  have htake : d.take (d.editor.replace []) =
      ({ d with editor := d.editor.replace [], clipboard := str }, .ok ()) := by
    rw [Desk.take, hs]
  have hkey := (input_serves hd (i := .key key) fun _ => hcut).1
  have hnone : (b.keyProcess key).1.CutsInPlace := by
    intro hsel
    have hne := hkey.isSelection_iff.mp hsel
    simp only [Desk.input, hpress, htake] at hne
    exact absurd rfl hne
  have hback := (input_serves hkey (i := .paste str) hnone).1.displays
  simp only [Desk.input, hpress, htake] at hkey
  simp only [Desk.input, hpress, Desk.take_paste hd.length_le hs] at hback
  have hend : (d.editor.replace d.editor.selected).cursor = b.listIdxHigh.cursorAbs.toNat := by
    rw [SelectionEditor.replace_cursor, SelectionEditor.selected_length, hd.high_eq,
      Nat.add_sub_cancel' d.editor.low_le_high]
  refine ⟨?_, hkey.clipboard, ?_, ?_, ?_⟩
  · rw [hd.remaining_eq]
    exact hkey.displays.text.trans (by
      rw [SelectionEditor.replace_text, List.append_nil, SelectionEditor.rest])
  · exact hback.text.trans (d.editor.replace_selected.trans hd.displays.text.symm)
  · exact UInt32.toNat_inj.mp (hback.front.trans hend)
  · exact UInt32.toNat_inj.mp (hback.back.trans hend)

theorem cut_and_paste_middle :
    (middleSelected.keyProcess (.ofCtrl keyCtrlX)).1.mUstrWork = middleSelected.remaining ∧
      (middleSelected.keyProcess (.ofCtrl keyCtrlX)).1.mClipboard = utf8Of ['b'] ∧
      ((middleSelected.keyProcess (.ofCtrl keyCtrlX)).1.paste (utf8Of ['b'])).1.mUstrWork =
        middleSelected.mUstrWork ∧
      ((middleSelected.keyProcess (.ofCtrl keyCtrlX)).1.paste (utf8Of ['b'])).1.mIdxFront.cursorAbs =
        middleSelected.listIdxHigh.cursorAbs ∧
      ((middleSelected.keyProcess (.ofCtrl keyCtrlX)).1.paste (utf8Of ['b'])).1.mIdxBack.cursorAbs =
        middleSelected.listIdxHigh.cursorAbs := by
  have hsel : middleSelected.selected = ['b'].map Char.val := by
    rw [middleSelected, new_eq]
    decide
  refine cut_and_paste middleSelected_reached ?_ ?_ ?_ ?_ ?_
    (by rw [hsel, utfToStr_map_val]) (by decide)
  all_goals
    rw [middleSelected, new_eq]
    decide

end TextBox
end ProcessingCommon
