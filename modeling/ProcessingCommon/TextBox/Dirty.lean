import Mathlib.Data.List.Induction
import ProcessingCommon.ListIdxCursor
import ProcessingCommon.TextBox.Texts

/-!
# The flag for the redraw

`keyProcess` clears `mDirty` before it looks at the key and sets it again where it changes
something. A key that it ignores therefore takes back the flag of the keys before.
-/

namespace ProcessingCommon

/-! ## Moves that report no change -/

namespace ListIdx

/-- The move is reported as no change exactly under this condition, and then it is none. -/
def IdleIff (x : ListIdx) (r : ListIdx × Bool) (ignored : Prop) : Prop :=
  (r.2 = false ↔ ignored) ∧ (r.2 = false → r.1 = x)

def AtFirst (x : ListIdx) : Prop := x.cursorAbs = 0

/-- Nothing moves the cursor of an empty window forward. -/
def AtLast (x : ListIdx) : Prop := x.win = 0 ∨ x.cursorAbs = x.size - 1

variable {x : ListIdx}

theorem RepInv.atFirst_iff (h : x.RepInv) : x.AtFirst ↔ x.mCursor = 0 ∧ x.mOffset = 0 := by
  unfold AtFirst
  rw [toNat_eq_zero, toNat_eq_zero, toNat_eq_zero, h.cursorAbs_toNat]
  omega

theorem IdleIff.busy {y : ListIdx} {ignored : Prop} (h : ¬ ignored) : IdleIff x (y, true) ignored :=
  ⟨⟨fun hr => (nomatch hr), fun hi => absurd hi h⟩, fun hr => nomatch hr⟩

theorem IdleIff.idle {ignored : Prop} (h : ignored) : IdleIff x (x, false) ignored :=
  ⟨⟨fun _ => h, fun _ => rfl⟩, fun _ => rfl⟩

/-- A move that reports no change makes none. -/
def Honest (x : ListIdx) (r : ListIdx × Bool) : Prop := r.2 = false → r.1 = x

theorem Honest.moved (x y : ListIdx) : Honest x (y, true) := fun hr =>
  absurd hr.symm Bool.false_ne_true

theorem Honest.still (x : ListIdx) : Honest x (x, false) := fun _ => rfl

theorem inc_honest (x : ListIdx) : Honest x x.inc := by
  unfold inc
  split_ifs
  · exact .still x
  · exact .moved x _
  · exact .moved x _
  · exact .still x

theorem reset_idle (h : x.RepInv) : IdleIff x x.reset x.AtFirst := by
  rw [IdleIff, h.atFirst_iff, reset, Bool.or_eq_false_iff, bne_eq_false_iff_eq, bne_eq_false_iff_eq]
  refine ⟨Iff.rfl, ?_⟩
  rintro ⟨hc, ho⟩
  cases x
  cases hc
  cases ho
  rfl

theorem dec_idle (h : x.RepInv) : IdleIff x x.dec x.AtFirst := by
  have hfirst := h.atFirst_iff
  unfold dec
  split_ifs with hs hc
  · exact .busy fun h0 => hs.2 (hfirst.mp h0).2
  · exact .busy fun h0 => hc (hfirst.mp h0).1
  · rw [not_ne_iff] at hc
    refine .idle (hfirst.mpr ⟨hc, not_ne_iff.mp fun ho => hs ⟨?_, ho⟩⟩)
    rw [hc]
    exact UInt32.zero_le

theorem Refines.atLast_iff {c : ListCursor} (h : x.Refines c) (hs : x.mSize ≠ 0) :
    x.AtLast ↔ c.pos = c.size - 1 := by
  have hw : x.mWin ≠ 0 := fun h0 => by
    have := h.win_pos
    rw [h0] at this
    exact Nat.lt_irrefl 0 this
  have hlast : x.AtLast ↔ x.cursorAbs = x.mSize - 1 := or_iff_right hw
  have hb := h.bounds
  have hpos := h.pos_eq
  rw [ne_eq, toNat_eq_zero] at hs
  rw [hlast, ← UInt32.toNat_inj, UInt32.toNat_sub, UInt32.toNat_one]
  omega

/-- A flag that tells whether the cursor is on another item. -/
theorem moved_eq_false {c c' : ListCursor} : ListCursor.moved c c' = false ↔ c.pos = c'.pos :=
  bne_eq_false_iff_eq

theorem inc_idle (h : x.RepInv) (hs : x.mSize ≠ 0) : IdleIff x x.inc x.AtLast := by
  by_cases hw : x.mWin = 0
  · rw [inc, if_pos (.inl hw)]
    exact .idle (.inl hw)
  obtain ⟨c, -, hc⟩ := h.refines (Nat.pos_of_ne_zero fun h0 => hw (toNat_eq_zero.mpr h0))
  refine ⟨?_, inc_honest x⟩
  rw [(inc_refines hc).2, moved_eq_false, hc.atLast_iff hs, ListCursor.next_pos]
  have := c.pos_le_pred
  omega

theorem cursorEndSet_idle (h : x.RepInv) (hs : x.mSize ≠ 0) :
    IdleIff x x.cursorEndSet x.AtLast := by
  by_cases hw : x.mWin = 0
  · rw [cursorEndSet, if_pos (.inl hw)]
    exact .idle (.inl hw)
  obtain ⟨c, -, hc⟩ := h.refines (Nat.pos_of_ne_zero fun h0 => hw (toNat_eq_zero.mpr h0))
  refine ⟨?_, fun hr => ?_⟩
  · rw [(cursorEndSet_refines hc).2, moved_eq_false, hc.atLast_iff hs, ListCursor.last_pos]
  · rw [cursorEndSet, if_neg (not_or.mpr ⟨hw, hs⟩), Bool.or_eq_false_iff, bne_eq_false_iff_eq,
      Bool.not_eq_false', h.endReached_iff] at hr
    rw [cursorEndSet, if_neg (not_or.mpr ⟨hw, hs⟩)]
    have hoffset : (if x.mSize > x.mWin then x.mSize - x.mWin else 0) = x.mOffset := by
      have ho := h.offset_le
      have := x.mWin.toNat_lt
      have := x.mSize.toNat_lt
      rw [toNat_eq_zero] at ho
      rw [← UInt32.toNat_inj]
      split
      · next hgt =>
        rw [gt_iff_lt, UInt32.lt_iff_toNat_lt] at hgt
        rw [UInt32.toNat_sub]
        omega
      · next hgt =>
        rw [gt_iff_lt, UInt32.lt_iff_toNat_lt] at hgt
        rw [UInt32.toNat_zero]
        omega
    rw [hoffset, ← hr.1]

/-- A jump is idle if it has no moves or if its first one is idle. -/
theorem jumpLoop_idle {move : ListIdx → ListIdx × Bool} {ignored : Prop}
    (h : IdleIff x (move x) ignored) (n : Nat) :
    IdleIff x (jumpLoop move n (x, false)) (n = 0 ∨ ignored) := by
  have hsticky : ∀ (n : Nat) (y : ListIdx), (jumpLoop move n (y, true)).2 = true := by
    intro n
    induction n with
    | zero => exact fun _ => rfl
    | succ n ih => exact fun y => ih _
  have hidle : ∀ n, (move x).2 = false → jumpLoop move n (x, false) = (x, false) := by
    intro n hm
    induction n with
    | zero => rfl
    | succ n ih => rw [jumpLoop, hm, h.2 hm, Bool.or_false, ih]
  cases n with
  | zero => exact .idle (.inl rfl)
  | succ n =>
    cases hm : (move x).2 with
    | false =>
      rw [hidle _ hm]
      exact .idle (.inr (h.1.mp hm))
    | true =>
      have hbusy : ¬ ignored := fun hi => Bool.false_ne_true ((h.1.mpr hi).symm.trans hm)
      have hflag : (jumpLoop move (n + 1) (x, false)).2 = true := by
        rw [jumpLoop, hm, Bool.or_true]
        exact hsticky n _
      refine ⟨iff_of_false (fun hr => ?_) fun hi => ?_, fun hr => ?_⟩
      · exact Bool.false_ne_true (hr.symm.trans hflag)
      · rcases hi with hi | hi
        · cases hi
        · exact hbusy hi
      · exact absurd (hr.symm.trans hflag) Bool.false_ne_true

end ListIdx

namespace TextBox

variable {b : TextBox} {key : KeyUser} {str : StdString}

/-! ## Keys that are ignored -/

/-- A word jump has nowhere to go. -/
def JumpIdle (b : TextBox) (isRight : Bool) : Prop :=
  b.mUstrWork.length = 0 ∨
    b.mIdxFront.cursorAbs.toUInt16 = if isRight then UInt16.ofNat b.mUstrWork.length else 0

/-- The cursor is already where the navigation key leads. -/
def NavigateIdle (b : TextBox) (key : KeyUser) : Prop :=
  if key.eqCtrl keyHome then b.mIdxFront.AtFirst
  else if key.eqCtrl keyEnd then b.mIdxFront.AtLast
  else if (key.eqCtrl keyLeft || key.eqCtrl keyRight) && key.modCtrl then
    b.JumpIdle (key.eqCtrl keyRight)
  else if key.eqCtrl keyLeft || key.eqCtrl keyUp then b.mIdxFront.AtFirst
  else if key.eqCtrl keyRight || key.eqCtrl keyDown then b.mIdxFront.AtLast
  else if key.eqCtrl keyPgUp then b.mIdxFront.mSizeJump.toNat = 0 ∨ b.mIdxFront.AtFirst
  else b.mIdxFront.mSizeJump.toNat = 0 ∨ b.mIdxFront.AtLast

def isNavigation (key : KeyUser) : Bool :=
  [keyHome, keyEnd, keyLeft, keyRight, keyUp, keyDown, keyPgUp, keyPgDn].any key.eqCtrl

/-- The key finds nothing to remove and nothing that it may insert. -/
def EditIdle (b : TextBox) (key : KeyUser) : Prop :=
  if keyIsBackspace key then b.isSelection = false ∧ b.mIdxFront.cursorAbs = 0
  else if key.eqCtrl keyDelete then
    b.isSelection = false ∧ b.mIdxFront.cursorAbs = b.mIdxFront.size - 1
  else if !key.isPrint then True
  else if b.mNumbersOnly && (key.ltChar '0'.val || key.gtChar '9'.val) then True
  else if b.isSelection then key.utf8 = none
  else b.mUstrWork.length ≥ b.mLenMax

/-- `keyProcess` ignores the key, or throws because its text cannot be converted. -/
def Ignored (b : TextBox) (key : KeyUser) : Prop :=
  if key.eqCtrl keyCtrlX then b.mFocus = true ∧ utfToStr b.selected = none
  else if key.eqCtrl keyCtrlC then True
  else if !b.mFocus then True
  else if key.eqCtrl keyCtrlA then b.mIdxBack.AtFirst ∧ b.mIdxFront.AtLast
  else if isNavigation key then key.modShift = true ∧ b.NavigateIdle key
  else b.EditIdle key

/-- What a redraw would show. -/
def drawn (b : TextBox) : U32String × U32String × UInt32 × UInt32 :=
  (b.mUstrWork, b.mUstrCurrent, b.cursorAbsFront, b.cursorAbsBack)

/-- An ignored key leaves a clear flag and what is drawn; any other key sets the flag. -/
structure Polled (b : TextBox) (ignored : Prop) (b' : TextBox) : Prop where
  idle : ignored → b'.mDirty = false ∧ b'.drawn = b.drawn
  busy : ¬ ignored → b'.mDirty = true

theorem Polled.of_dirty {ignored : Prop} {b' : TextBox} (hd : b'.mDirty = true) (h : ¬ ignored) :
    Polled b ignored b' := ⟨fun hi => absurd hi h, fun _ => hd⟩

theorem Polled.of_same {ignored : Prop} {b' : TextBox} (hd : b'.mDirty = false)
    (hs : b'.drawn = b.drawn) (h : ignored) : Polled b ignored b' :=
  ⟨fun _ => ⟨hd, hs⟩, fun hi => absurd h hi⟩

/-! ## Edits -/

/-- Only text that cannot be decoded makes `selectionInsert` throw `range_error`. -/
theorem selectionInsert_error (b : TextBox) (hu : (strToUtf str).isSome = true) :
    (b.selectionInsert str).2 ≠ .error .rangeError := by
  obtain ⟨ustr, hu⟩ := Option.isSome_iff_exists.mp hu
  rw [selectionInsert, hu]
  dsimp only
  split
  · next e he =>
    rw [insertAt] at he
    split at he
    · cases he
    · cases he
      intro h
      cases h
  · intro h
    cases h

/-- A replacement of the selection by text that can be decoded does not throw. -/
theorem replaceDirty_dirty (h : b.Consistent) (hf : b.mFocus = true) (hm : b.ReplaceOk)
    (hu : (strToUtf str).isSome = true) : (b.replaceDirty str).1.mDirty = true := by
  have hsafe : Safe (b.selectionReplace str) := selectionReplace_safe h hf fun _ => hm
  obtain ⟨work, idx, hc, -, -⟩ := selectionClear_ok h hf
  unfold replaceDirty
  split
  · next e hr =>
    rw [hr] at hsafe
    rw [selectionReplace, hc] at hr
    cases e with
    | rangeError => exact absurd (congrArg Prod.snd hr) (selectionInsert_error _ hu)
    | outOfRange => exact absurd rfl hsafe.2
  · rfl

theorem strToUtf_empty_isSome : (strToUtf ByteArray.empty).isSome = true := by
  rw [strToUtf_empty]
  rfl

theorem keyCut_polled (h : b.Consistent) (hd : b.mDirty = false)
    (hm : b.mFocus = true → (utfToStr b.selected).isSome = true → b.ReplaceOk) :
    Polled b (b.mFocus = true ∧ utfToStr b.selected = none) b.keyCut.1 := by
  cases hf : b.mFocus with
  | false =>
    have hcut : b.keyCut = { b with mClipboard := b.mCurrent, mUstrCurrent := [] }.dirtySet := by
      simp only [keyCut, clipboardSet, hf, Bool.not_false, if_true]
    rw [hcut]
    exact .of_dirty rfl fun hi => Bool.false_ne_true hi.1
  | true =>
    have hlow : b.listIdxLow.cursorAbs.toNat ≤ b.mUstrWork.length :=
      (h.fitsText hf).low.cursorAbs_le
    unfold keyCut
    rw [clipboardSet_focused hf, if_pos hlow]
    cases hu : utfToStr b.selected with
    | none => exact .of_same hd rfl ⟨rfl, rfl⟩
    | some str =>
      dsimp only
      rw [if_neg (not_unfocused hf)]
      refine .of_dirty ?_ fun hi => by cases hi.2
      exact replaceDirty_dirty (h.clipboard str) hf (hm hf (by rw [hu]; rfl)) strToUtf_empty_isSome

theorem keyCopy_polled (hd : b.mDirty = false) : Polled b True b.keyCopy.1 := by
  unfold keyCopy
  rcases clipboardSet_cases b with ⟨str, hc, -⟩ | ⟨e, hc, -⟩
  · rw [hc]
    exact .of_same hd rfl trivial
  · rw [hc]
    exact .of_same hd rfl trivial

theorem keyBackspaceProcess_polled (h : b.Consistent) (hf : b.mFocus = true)
    (hd : b.mDirty = false) (hm : b.isSelection = true → b.ReplaceOk) :
    Polled b (b.isSelection = false ∧ b.mIdxFront.cursorAbs = 0) b.keyBackspaceProcess.1 := by
  unfold keyBackspaceProcess
  split
  · next hs =>
    refine .of_dirty (replaceDirty_dirty h hf (hm hs) strToUtf_empty_isSome) fun hi => ?_
    exact Bool.false_ne_true (hi.1.symm.trans hs)
  · next hs =>
    rw [Bool.not_eq_true] at hs
    by_cases h0 : b.mIdxFront.cursorAbs = 0
    · rw [ListIdx.prevErase, if_pos h0]
      exact .of_same hd rfl ⟨hs, h0⟩
    · have hp := (h.focused hf).1.prevErase h0
      have hr : b.mIdxFront.prevErase.2 = true := by rw [ListIdx.prevErase, if_neg h0]
      obtain ⟨work, hw, -⟩ := eraseAt_ok b.mUstrWork b.mIdxFront.prevErase.1.cursorAbs.toNat 1 (by
        have hpos := hp.cursorAbs_le
        have hcursor := (h.focused hf).1.cursorAbs_le
        rw [ListIdx.toNat_eq_zero] at h0
        omega)
      simp only [hr, Bool.not_true, Bool.false_eq_true, if_false, hw]
      exact .of_dirty rfl fun hi => h0 hi.2

theorem keyDeleteProcess_polled (h : b.Consistent) (hf : b.mFocus = true)
    (hd : b.mDirty = false) (hm : b.isSelection = true → b.ReplaceOk) :
    Polled b (b.isSelection = false ∧ b.mIdxFront.cursorAbs = b.mIdxFront.size - 1)
      b.keyDeleteProcess.1 := by
  unfold keyDeleteProcess
  split
  · next hs =>
    refine .of_dirty (replaceDirty_dirty h hf (hm hs) strToUtf_empty_isSome) fun hi => ?_
    exact Bool.false_ne_true (hi.1.symm.trans hs)
  · next hs =>
    rw [Bool.not_eq_true] at hs
    split
    · next hend => exact .of_same hd rfl ⟨hs, hend⟩
    · next hend =>
      have hsize := (h.focused hf).1.size_eq
      have hr : b.mIdxFront.currErase.2 = true := by
        rw [ListIdx.currErase, if_neg (by rw [ListIdx.toNat_eq_zero]; omega)]
      obtain ⟨work, hw, -⟩ := eraseAt_ok b.mUstrWork b.mIdxFront.cursorAbs.toNat 1 (by
        have hcursor := (h.focused hf).1.cursorAbs_le
        have := b.mIdxFront.mSize.toNat_lt
        rw [← UInt32.toNat_inj, UInt32.toNat_sub, UInt32.toNat_one, ListIdx.size] at hend
        omega)
      simp only [hr, Bool.not_true, Bool.false_eq_true, if_false, hw]
      exact .of_dirty rfl fun hi => hend hi.2

/-- A key whose text is known is printable, so the text can be decoded. -/
theorem utf8_isSome_decodes {str : StdString} (hu : key.utf8 = some str) :
    (strToUtf str).isSome = true := by
  unfold KeyUser.utf8 at hu
  split at hu
  · cases hu
    exact strToUtf_empty_isSome
  · rw [strToUtf_of_utfToStr hu]
    rfl

theorem keyPrintProcess_polled (h : b.Consistent) (hf : b.mFocus = true) (hd : b.mDirty = false)
    (hm : b.isSelection = true → key.utf8.isSome = true →
      ¬ (b.mNumbersOnly && (key.ltChar '0'.val || key.gtChar '9'.val)) = true → b.ReplaceOk) :
    Polled b (if b.mNumbersOnly && (key.ltChar '0'.val || key.gtChar '9'.val) then True
      else if b.isSelection then key.utf8 = none
      else b.mUstrWork.length ≥ b.mLenMax) (b.keyPrintProcess key).1 := by
  unfold keyPrintProcess
  by_cases hnum : (b.mNumbersOnly && (key.ltChar '0'.val || key.gtChar '9'.val)) = true
  · rw [if_pos hnum, if_pos hnum]
    exact .of_same hd rfl trivial
  rw [if_neg hnum, if_neg hnum]
  by_cases hs : b.isSelection = true
  · rw [if_pos hs, if_pos hs]
    cases hu : key.utf8 with
    | none => exact .of_same hd rfl rfl
    | some str =>
      have hm' := hm hs (by rw [hu]; rfl) hnum
      exact .of_dirty (replaceDirty_dirty h hf hm' (utf8_isSome_decodes hu)) fun hi => nomatch hi
  rw [if_neg hs, if_neg hs]
  by_cases hfull : b.mUstrWork.length ≥ b.mLenMax
  · rw [if_pos hfull]
    exact .of_same hd rfl hfull
  · obtain ⟨work, hw, -⟩ := insertAt_ok (h.focused hf).1.cursorAbs_le [key.mPrint]
    rw [if_neg hfull, hw]
    exact .of_dirty rfl hfull

theorem keyEdit_polled (h : b.Consistent) (hf : b.mFocus = true) (hd : b.mDirty = false)
    (hm : b.Replaces key → b.ReplaceOk) : Polled b (b.EditIdle key) (b.keyEdit key).1 := by
  unfold keyEdit EditIdle
  by_cases hback : keyIsBackspace key = true
  · rw [if_pos hback, if_pos hback]
    exact keyBackspaceProcess_polled h hf hd fun hs => hm ⟨hf, .inr ⟨hs, .inl hback⟩⟩
  rw [if_neg hback, if_neg hback]
  by_cases hdel : key.eqCtrl keyDelete = true
  · rw [if_pos hdel, if_pos hdel]
    exact keyDeleteProcess_polled h hf hd fun hs => hm ⟨hf, .inr ⟨hs, .inr (.inl hdel)⟩⟩
  rw [if_neg hdel, if_neg hdel]
  by_cases hprint : (!key.isPrint) = true
  · rw [if_pos hprint, if_pos hprint]
    exact .of_same hd rfl trivial
  rw [if_neg hprint, if_neg hprint]
  rw [Bool.not_eq_true', Bool.not_eq_false] at hprint
  exact keyPrintProcess_polled h hf hd fun hs hu hnum =>
    hm ⟨hf, .inr ⟨hs, .inr (.inr ⟨hprint, hu, hnum⟩)⟩⟩

/-! ## Navigation -/

theorem cursorJump_idle (b : TextBox) (key : KeyUser) :
    ListIdx.IdleIff b.mIdxFront (b.cursorJump key) (b.JumpIdle (key.eqCtrl keyRight)) := by
  unfold cursorJump
  split
  · next hlen => exact .idle (.inl hlen)
  · next hlen =>
    extract_lets isRight idxAbs idxStop
    -- the loop reports a change as soon as it makes a round
    obtain ⟨k, hzero, hk⟩ := cursorJumpLoop_rounds b.mUstrWork isRight idxStop (2 ^ 16) idxAbs
      idxAbs.toNat none
    rw [hk]
    by_cases hstop : idxAbs = idxStop
    · rw [hzero.mpr (.inr hstop)]
      exact .idle (.inr hstop)
    · have hpos : k ≠ 0 := fun h0 => (hzero.mp h0).elim (Nat.succ_ne_zero _) hstop
      have hflag : (false || k != 0) = true := by rw [Bool.false_or, bne_iff_ne.mpr hpos]
      have hbusy : ¬ b.JumpIdle isRight := fun hi => hi.elim hlen hstop
      refine ⟨iff_of_false (fun hr => ?_) hbusy, fun hr => ?_⟩
      · exact Bool.false_ne_true (hr.symm.trans hflag)
      · exact absurd (hr.symm.trans hflag) Bool.false_ne_true

/-- A control key is no letter. -/
theorem keyIsCtrlOr_of_eqCtrl {c : CtrlKeyUser} (h : key.eqCtrl c = true) (ctrl : CtrlKeyUser)
    (letter : Char) : keyIsCtrlOr ctrl letter key = (c == ctrl) := by
  have hprint := KeyUser.isPrint_of_eqCtrl h
  simp only [KeyUser.eqCtrl, Bool.and_eq_true, beq_iff_eq] at h
  rw [keyIsCtrlOr, hprint, KeyUser.isCtrl, h.1, h.2, Bool.false_and, Bool.or_false, Bool.true_and]

/-- The keys that jump. -/
theorem keyProcess_pgUp (x : ListIdx) (h : key.eqCtrl keyPgUp = true) :
    x.keyProcess key [] = x.decJump := by
  simp only [ListIdx.keyProcess, keyIsDown, keyIsUp, keyIsDownJump, keyIsUpJump,
    keyIsCtrlOr_of_eqCtrl h, List.any_nil]
  rfl

theorem keyProcess_pgDn (x : ListIdx) (h : key.eqCtrl keyPgDn = true) :
    x.keyProcess key [] = x.incJump := by
  simp only [ListIdx.keyProcess, keyIsDown, keyIsUp, keyIsDownJump, keyIsUpJump,
    keyIsCtrlOr_of_eqCtrl h, List.any_nil]
  rfl

/-- A navigation key is one of eight, and `navigateFront` knows them all. -/
theorem navigateFront_idle (h : b.Consistent) (hf : b.mFocus = true)
    (hnav : isNavigation key = true) : ∃ r, b.navigateFront key = some r ∧
      ListIdx.IdleIff b.mIdxFront r (b.NavigateIdle key) := by
  have hinv := h.front
  have hsize : b.mIdxFront.mSize ≠ 0 := by
    have := (h.focused hf).1.size_eq
    rw [ne_eq, ListIdx.toNat_eq_zero]
    omega
  unfold navigateFront NavigateIdle
  split_ifs with hhome hend hjump hleft hright hpage hup
  · exact ⟨_, rfl, ListIdx.reset_idle hinv⟩
  · exact ⟨_, rfl, ListIdx.cursorEndSet_idle hinv hsize⟩
  · exact ⟨_, rfl, cursorJump_idle b key⟩
  · exact ⟨_, rfl, ListIdx.dec_idle hinv⟩
  · exact ⟨_, rfl, ListIdx.inc_idle hinv hsize⟩
  · refine ⟨_, rfl, ?_⟩
    rw [keyProcess_pgUp _ hup]
    exact ListIdx.jumpLoop_idle (ListIdx.dec_idle hinv) _
  · refine ⟨_, rfl, ?_⟩
    rw [Bool.or_eq_true, or_iff_right hup] at hpage
    rw [keyProcess_pgDn _ hpage]
    exact ListIdx.jumpLoop_idle (ListIdx.inc_idle hinv hsize) _
  all_goals
    exfalso
    simp only [isNavigation, List.any_cons, List.any_nil, Bool.or_false, Bool.or_eq_true] at hnav
    simp only [Bool.or_eq_true, not_or] at hleft hright hpage
    tauto

theorem navigateFront_none (b : TextBox) (hnav : ¬ isNavigation key = true) :
    b.navigateFront key = none := by
  simp only [isNavigation, List.any_cons, List.any_nil, Bool.or_false, Bool.or_eq_true,
    not_or] at hnav
  simp only [navigateFront, hnav, Bool.or_false, Bool.false_and, Bool.false_eq_true, if_false]

/-! ## Every key -/

theorem keySelectAll_polled (h : b.Consistent) (hf : b.mFocus = true) (hd : b.mDirty = false) :
    Polled b (b.mIdxBack.AtFirst ∧ b.mIdxFront.AtLast) b.keySelectAll.1 := by
  have hsize : b.mIdxFront.mSize ≠ 0 := by
    have := (h.focused hf).1.size_eq
    rw [ne_eq, ListIdx.toNat_eq_zero]
    omega
  have hback := ListIdx.reset_idle h.back
  have hfront := ListIdx.cursorEndSet_idle h.front hsize
  constructor
  · rintro ⟨hb, hl⟩
    have hb' := hback.1.mpr hb
    have hl' := hfront.1.mpr hl
    refine ⟨?_, ?_⟩
    · show (b.mDirty || b.mIdxBack.reset.2 || b.mIdxFront.cursorEndSet.2) = false
      rw [hd, hb', hl']
      rfl
    · show (b.mUstrWork, b.mUstrCurrent, b.mIdxFront.cursorEndSet.1.cursorAbs,
        b.mIdxBack.reset.1.cursorAbs) = b.drawn
      rw [hback.2 hb', hfront.2 hl']
      rfl
  · intro hi
    show (b.mDirty || b.mIdxBack.reset.2 || b.mIdxFront.cursorEndSet.2) = true
    rw [hd, Bool.false_or, Bool.or_eq_true, ← Bool.not_eq_false, ← Bool.not_eq_false, hback.1,
      hfront.1]
    exact not_and_or.mp hi

/-- Without shift a navigation key always sets the flag, since it takes the selection away. -/
theorem navigate_polled (h : b.Consistent) (hf : b.mFocus = true) (hd : b.mDirty = false)
    (hnav : isNavigation key = true) : Polled b (key.modShift = true ∧ b.NavigateIdle key)
      (if (b.navigate key).2 then (b.navigate key).1.dirtySet
        else (b.navigate key).1.keyEdit key).1 := by
  obtain ⟨r, hr, hidle⟩ := navigateFront_idle h hf hnav
  rw [keyEdit_of_navigate hr]
  by_cases hshift : key.modShift = true
  · have heq : b.navigate key = ({ b with mIdxFront := r.1 }, r.2) := by
      rw [navigate, hr]
      exact if_pos hshift
    rw [heq]
    split
    · next hflag =>
      exact .of_dirty rfl fun hi => Bool.false_ne_true ((hidle.1.mpr hi.2).symm.trans hflag)
    · next hflag =>
      rw [Bool.not_eq_true] at hflag
      refine .of_same hd ?_ ⟨hshift, hidle.1.mp hflag⟩
      dsimp only
      rw [hidle.2 hflag]
  · have heq : b.navigate key = ({ b with mIdxFront := r.1, mIdxBack := r.1 }, true) := by
      rw [navigate, hr]
      exact if_neg hshift
    rw [heq]
    exact .of_dirty rfl fun hi => hshift hi.1

theorem keyProcess_polled (h : b.Consistent) (hm : b.Replaces key → b.ReplaceOk) :
    Polled b (b.Ignored key) (b.keyProcess key).1 := by
  have hc : Consistent { b with mDirty := false } :=
    ⟨h.front, h.back, h.lenMax, h.work, h.current, h.focused⟩
  suffices hp : Polled { b with mDirty := false } (b.Ignored key) (b.keyProcess key).1 from
    ⟨hp.idle, hp.busy⟩
  unfold keyProcess Ignored
  dsimp only
  by_cases hx : key.eqCtrl keyCtrlX = true
  · rw [if_pos hx, if_pos hx]
    exact keyCut_polled hc rfl fun hf hu => hm ⟨hf, .inl ⟨hx, hu⟩⟩
  rw [if_neg hx, if_neg hx]
  by_cases hcopy : key.eqCtrl keyCtrlC = true
  · rw [if_pos hcopy, if_pos hcopy]
    exact keyCopy_polled rfl
  rw [if_neg hcopy, if_neg hcopy]
  by_cases hfocus : (!b.mFocus) = true
  · rw [if_pos hfocus, if_pos hfocus]
    exact .of_same rfl rfl trivial
  rw [if_neg hfocus, if_neg hfocus]
  rw [Bool.not_eq_true', Bool.not_eq_false] at hfocus
  by_cases hall : key.eqCtrl keyCtrlA = true
  · rw [if_pos hall, if_pos hall]
    exact keySelectAll_polled hc hfocus rfl
  rw [if_neg hall, if_neg hall]
  by_cases hnav : isNavigation key = true
  · rw [if_pos hnav]
    exact navigate_polled hc hfocus rfl hnav
  · rw [if_neg hnav, navigate, navigateFront_none _ hnav]
    exact keyEdit_polled hc hfocus rfl hm

/-- In a run whose calls meet `StepOk`, the second of two polls sees every change by the keys
between them exactly if the last key is not ignored or nothing had changed before it. -/
theorem redraw_iff (h : Reached b) (keys : List KeyUser)
    (hok : ∀ ks key, ks ++ [key] <+: keys →
      (b.dirty.1.run (ks.map Op.keyProcess)).StepOk (.keyProcess key)) :
    ((b.dirty.1.run (keys.map Op.keyProcess)).drawn ≠ b.drawn →
      (b.dirty.1.run (keys.map Op.keyProcess)).dirty.2 = true) ↔
    ∀ ks key, keys = ks ++ [key] → (b.dirty.1.run (ks.map Op.keyProcess)).Ignored key →
      (b.dirty.1.run (ks.map Op.keyProcess)).drawn = b.drawn := by
  have hreached : ∀ ks, ks <+: keys → Reached (b.dirty.1.run (ks.map Op.keyProcess)) := by
    intro ks
    induction ks using List.reverseRecOn with
    | nil => exact fun _ => h.apply .dirty trivial
    | append_singleton ks key ih =>
      intro hpre
      have hnext := (ih ((List.prefix_append ks [key]).trans hpre)).apply _ (hok ks key hpre)
      rw [List.map_append, run, List.foldl_append]
      exact hnext
  rcases List.eq_nil_or_concat keys with rfl | ⟨ks, key, hkeys⟩
  · refine iff_of_true (fun hd => absurd rfl hd) fun ks key hk => ?_
    exact absurd hk.symm (List.append_ne_nil_of_right_ne_nil _ (List.cons_ne_nil _ _))
  · rw [List.concat_eq_append] at hkeys
    subst hkeys
    have hlast : b.dirty.1.run ((ks ++ [key]).map Op.keyProcess) =
        ((b.dirty.1.run (ks.map Op.keyProcess)).keyProcess key).1 := by
      rw [List.map_append, run, List.foldl_append]
      rfl
    have hc := (hreached ks (List.prefix_append ks [key])).consistent
    have hp := keyProcess_polled hc (hok ks key (List.prefix_refl _))
    rw [hlast]
    constructor
    · intro hsees ks' key' hk hi
      obtain ⟨rfl, hkey⟩ := List.append_inj' hk rfl
      obtain rfl : key = key' := List.head_eq_of_cons_eq hkey
      by_contra hne
      obtain ⟨hflag, hsame⟩ := hp.idle hi
      have hset := hsees (by rw [hsame]; exact hne)
      exact Bool.false_ne_true (hflag.symm.trans hset)
    · intro hcond hne
      refine hp.busy fun hi => hne ?_
      exact (hp.idle hi).2.trans (hcond ks key rfl hi)

/-- A letter is typed. -/
theorem redraw_iff_typed :
    ((new.apply (.focusSet true true)).dirty.1.run
      ([.ofChar 97].map Op.keyProcess)).dirty.2 = true := by
  have hfocus : Reached (new.apply (.focusSet true true)) :=
    Reached.apply (.start rfl) _ fun _ hw => absurd hw (by rw [new_eq]; decide +kernel)
  have hone : ∀ (ks : List KeyUser) (key : KeyUser), ks ++ [key] <+: [.ofChar 97] → ks = [] := by
    intro ks key hpre
    have hlen := hpre.length_le
    rw [List.length_append, List.length_singleton, List.length_singleton] at hlen
    exact List.eq_nil_of_length_eq_zero (by omega)
  refine (redraw_iff hfocus [.ofChar 97] fun ks key hpre => ?_).mpr (fun ks key hk _ => ?_) ?_
  · obtain rfl := hone ks key hpre
    intro _
    rw [new_eq]
    decide +kernel
  · obtain rfl := hone ks key (hk ▸ List.prefix_refl _)
    rfl
  · rw [new_eq]
    decide +kernel

/-- Ctrl-C after a letter takes the flag back. -/
theorem redraw_iff_fails :
    ((new.apply (.focusSet true true)).dirty.1.run
      ([.ofChar 97, .ofCtrl keyCtrlC].map Op.keyProcess)).drawn ≠
        (new.apply (.focusSet true true)).drawn ∧
    ((new.apply (.focusSet true true)).dirty.1.run
      ([.ofChar 97, .ofCtrl keyCtrlC].map Op.keyProcess)).dirty.2 = false := by
  rw [new_eq]
  decide +kernel

end TextBox
end ProcessingCommon
