import ProcessingCommon.Lib.PlainEditor
import ProcessingCommon.ListIdxCursor
import ProcessingCommon.TextBox.Dirty

/-!
# Single keys edit like a plain editor

Without a selection `keyProcess` changes text and index by separate calls, for each key in
another order. Together they are one edit of a `PlainEditor`, whatever window, bounds and offset
the index has.
-/

namespace ProcessingCommon
namespace TextBox

open ListIdx

variable {b : TextBox} {e : PlainEditor Char32} {key : KeyUser}

/-- The focused box shows the editor: same text, both cursors on its cursor, both indexes with
one position more than the text, and a window. -/
structure Shows (b : TextBox) (e : PlainEditor Char32) : Prop where
  focus : b.mFocus = true
  lenMax : b.mLenMax < 2 ^ 16
  text : b.mUstrWork = e.text
  front : b.mIdxFront.Refines e.position
  back_size : b.mIdxBack.mSize.toNat = e.text.length + 1
  back_pos : b.mIdxBack.cursorAbs.toNat = e.cursor

/-- The key is printable and `mNumbersOnly` does not reject it. -/
def Accepts (b : TextBox) (key : KeyUser) : Prop :=
  key.isPrint = true ∧
    ¬ (b.mNumbersOnly && (key.ltChar '0'.val || key.gtChar '9'.val)) = true

instance : Decidable (b.Accepts key) := inferInstanceAs (Decidable (_ ∧ _))

/-- The edit that the key stands for. -/
def edited (b : TextBox) (e : PlainEditor Char32) (key : KeyUser) : PlainEditor Char32 :=
  if keyIsBackspace key then e.backspace
  else if key.eqCtrl keyDelete then e.delete
  else if b.Accepts key ∧ e.text.length < b.mLenMax then e.insert key.mPrint
  else e

/-- The keys that neither move the cursor nor take the whole text or a selection. -/
def isSingle (key : KeyUser) : Bool :=
  !(isNavigation key || key.eqCtrl keyCtrlA || key.eqCtrl keyCtrlX)

/-! ## What is shown -/

namespace Shows

/-- After an edit the back index is a copy of the front index. -/
theorem of_front (hf : b.mFocus = true) (hl : b.mLenMax < 2 ^ 16) (ht : b.mUstrWork = e.text)
    (hi : b.mIdxFront.Refines e.position) (hb : b.mIdxBack = b.mIdxFront) : b.Shows e where
  focus := hf
  lenMax := hl
  text := ht
  front := hi
  back_size := by rw [hb, hi.size_eq, PlainEditor.position_size]
  back_pos := by rw [hb, hi.pos_eq, PlainEditor.position_pos]

theorem clean (h : b.Shows e) (dirty : Bool) : Shows { b with mDirty := dirty } e :=
  ⟨h.focus, h.lenMax, h.text, h.front, h.back_size, h.back_pos⟩

theorem dirtySet (h : b.Shows e) : b.dirtySet.1.Shows e := h.clean true

theorem cursorAbs_eq (h : b.Shows e) : b.mIdxBack.cursorAbs = b.mIdxFront.cursorAbs :=
  UInt32.toNat_inj.mp (h.back_pos.trans h.front.pos_eq.symm)

theorem not_isSelection (h : b.Shows e) : ¬ b.isSelection = true := by
  rw [isSelection, h.cursorAbs_eq, bne_self_eq_false]
  exact Bool.false_ne_true

/-- The `uint32_t` positions reach behind the text. -/
theorem length_lt (h : b.Shows e) : e.text.length + 1 < 2 ^ 32 :=
  lt_of_eq_of_lt h.front.size_eq.symm b.mIdxFront.mSize.toNat_lt

/-! ## The keys -/

theorem keyBackspaceProcess (h : b.Shows e) : b.keyBackspaceProcess.1.Shows e.backspace := by
  obtain ⟨hi, hr⟩ := prevErase_refines h.front
  unfold TextBox.keyBackspaceProcess
  rw [if_neg h.not_isSelection]
  dsimp only
  rw [hr, PlainEditor.position_pos]
  rw [PlainEditor.position_pos] at hi
  by_cases hpos : 0 < e.cursor
  · rw [if_neg (Nat.pos_iff_ne_zero.mp hpos), ← PlainEditor.backspace_position hpos] at hi
    have hcur : b.mIdxFront.prevErase.1.cursorAbs.toNat = e.cursor - 1 := by
      rw [hi.pos_eq, PlainEditor.position_pos, PlainEditor.backspace, if_pos hpos]
    -- the text is cut where the index stands after its step back
    have herase : eraseAt b.mUstrWork b.mIdxFront.prevErase.1.cursorAbs.toNat 1 =
        .ok e.backspace.text := by
      have hle : e.cursor - 1 ≤ e.text.length := Nat.le_trans (Nat.sub_le _ _) e.cursor_le
      rw [eraseAt, hcur, h.text, if_pos hle, Nat.sub_add_cancel hpos, PlainEditor.backspace,
        if_pos hpos]
    rw [decide_eq_true hpos, if_neg (by decide), herase]
    exact of_front h.focus h.lenMax rfl hi rfl
  · rw [if_pos (Nat.eq_zero_of_not_pos hpos)] at hi
    rw [decide_eq_false hpos, if_pos (by decide), PlainEditor.backspace, if_neg hpos]
    exact ⟨h.focus, h.lenMax, h.text, hi, h.back_size, h.back_pos⟩

/-- The test for the position behind the text. -/
theorem atEnd_iff (h : b.Shows e) :
    b.mIdxFront.cursorAbs = b.mIdxFront.size - 1 ↔ ¬ e.cursor < e.text.length := by
  have hle := e.cursor_le
  have hlen := h.length_lt
  have hone : (b.mIdxFront.size - 1).toNat = e.text.length := by
    have hs : b.mIdxFront.size.toNat = e.text.length + 1 := h.front.size_eq
    rw [UInt32.toNat_sub, hs, UInt32.toNat_one]
    omega
  rw [← UInt32.toNat_inj, hone, h.front.pos_eq, PlainEditor.position_pos]
  omega

theorem keyDeleteProcess (h : b.Shows e) : b.keyDeleteProcess.1.Shows e.delete := by
  obtain ⟨hi, hr⟩ := currErase_refines h.front
  unfold TextBox.keyDeleteProcess
  rw [if_neg h.not_isSelection]
  by_cases hend : e.cursor < e.text.length
  · rw [if_neg fun heq => h.atEnd_iff.mp heq hend]
    rw [← PlainEditor.delete_position hend] at hi
    have herase : eraseAt b.mUstrWork b.mIdxFront.cursorAbs.toNat 1 = .ok e.delete.text := by
      rw [eraseAt, h.front.pos_eq, PlainEditor.position_pos, h.text, if_pos e.cursor_le,
        PlainEditor.delete, dif_pos hend]
    have herased : b.mIdxFront.currErase.2 = true :=
      hr.trans (decide_eq_true (Nat.succ_pos e.text.length))
    dsimp only
    rw [herased, if_neg (by decide), herase]
    exact of_front h.focus h.lenMax rfl hi rfl
  · rw [if_pos (h.atEnd_iff.mpr hend), PlainEditor.delete, dif_neg hend]
    exact h

theorem keyPrintProcess (h : b.Shows e) (hp : key.isPrint = true) :
    (b.keyPrintProcess key).1.Shows
      (if b.Accepts key ∧ e.text.length < b.mLenMax then e.insert key.mPrint else e) := by
  unfold TextBox.keyPrintProcess
  split
  · next hnum =>
    rw [if_neg fun hacc => hacc.1.2 hnum]
    exact h
  next hnum =>
  rw [if_neg h.not_isSelection, h.text]
  split
  · next hfull =>
    rw [if_neg fun hacc => Nat.not_lt.mpr hfull hacc.2]
    exact h
  next hfull =>
  have hroom : e.text.length < b.mLenMax := Nat.not_le.mp hfull
  have hmod : (e.position.size + 1) % 2 ^ 32 = e.position.size + 1 :=
    Nat.mod_eq_of_lt (by have := h.lenMax; rw [PlainEditor.position_size]; omega)
  have hi := insert_refines h.front
  rw [hmod, ← PlainEditor.insert_position key.mPrint] at hi
  have hins : insertAt e.text b.mIdxFront.cursorAbs.toNat [key.mPrint] =
      .ok (e.insert key.mPrint).text := by
    rw [insertAt, h.front.pos_eq, PlainEditor.position_pos, if_pos e.cursor_le]
    rfl
  rw [if_pos ⟨⟨hp, hnum⟩, hroom⟩, hins]
  exact of_front h.focus h.lenMax rfl hi rfl

theorem keyEdit (h : b.Shows e) (key : KeyUser) : (b.keyEdit key).1.Shows (b.edited e key) := by
  unfold TextBox.keyEdit edited
  split
  · exact h.keyBackspaceProcess
  split
  · exact h.keyDeleteProcess
  split
  · next hp =>
    rw [Bool.not_eq_true'] at hp
    rw [if_neg fun hacc => Bool.false_ne_true (hp.symm.trans hacc.1.1)]
    exact h
  · next hp =>
    rw [Bool.not_eq_true', Bool.not_eq_false] at hp
    exact h.keyPrintProcess hp

theorem keyCopy (h : b.Shows e) : b.keyCopy.1.Shows e := by
  unfold TextBox.keyCopy
  rcases clipboardSet_cases b with ⟨clip, hc, -⟩ | ⟨exn, hc, -⟩
  · rw [hc]
    exact ⟨h.focus, h.lenMax, h.text, h.front, h.back_size, h.back_pos⟩
  · rw [hc]
    exact h

/-- One key is one edit. -/
theorem keyProcess (h : b.Shows e) (hk : isSingle key = true) :
    (b.keyProcess key).1.Shows (b.edited e key) := by
  have hclean := h.clean false
  simp only [isSingle, Bool.not_eq_true', Bool.or_eq_false_iff] at hk
  obtain ⟨⟨hnav, hall⟩, hcut⟩ := hk
  unfold TextBox.keyProcess
  dsimp only
  rw [hcut, if_neg Bool.false_ne_true, if_neg (not_unfocused h.focus), hall,
    if_neg Bool.false_ne_true, navigate, navigateFront_none _ (Bool.eq_false_iff.mp hnav)]
  split
  · next hcopy =>
    -- Ctrl-C is no edit
    have hback : ¬ keyIsBackspace key = true :=
      not_keyIsBackspace (KeyUser.eqCtrl_of_ne hcopy (by decide))
        (KeyUser.eqCtrl_of_ne hcopy (by decide))
    have hdel : ¬ key.eqCtrl keyDelete = true := KeyUser.eqCtrl_of_ne hcopy (by decide)
    rw [edited, if_neg hback, if_neg hdel,
      if_neg fun hacc => KeyUser.eqCtrl_of_isPrint hacc.1.1 _ hcopy]
    exact hclean.keyCopy
  · exact hclean.keyEdit key

end Shows

/-! ## Every box, every key -/

/-- A focused box without selection shows the editor with its text and its cursor. -/
theorem exists_shows (hf : b.mFocus = true) (hl : b.mLenMax < 2 ^ 16) (hi : b.mIdxFront.RepInv)
    (hw : 1 ≤ b.mIdxFront.mWin.toNat) (hs : b.mIdxFront.mSize.toNat = b.mUstrWork.length + 1)
    (hs' : b.mIdxBack.mSize.toNat = b.mUstrWork.length + 1)
    (hc : b.mIdxBack.cursorAbs = b.mIdxFront.cursorAbs) :
    ∃ e : PlainEditor Char32, e.text = b.mUstrWork ∧ e.cursor = b.mIdxFront.cursorAbs.toNat ∧
      b.Shows e := by
  have hlt := hi.cursorAbs_lt hw (by omega)
  refine ⟨⟨b.mUstrWork, b.mIdxFront.cursorAbs.toNat, by omega⟩, rfl, rfl, ?_⟩
  exact ⟨hf, hl, rfl, ⟨hi, hw, hs, rfl⟩, hs', congrArg UInt32.toNat hc⟩

theorem isSingle_iff : isSingle key = true ↔ ∀ c ∈ [keyHome, keyEnd, keyLeft, keyRight, keyUp,
    keyDown, keyPgUp, keyPgDn, keyCtrlA, keyCtrlX], ¬ key.eqCtrl c = true := by
  simp only [isSingle, isNavigation, List.any_cons, List.any_nil, Bool.or_false, Bool.not_eq_true',
    Bool.or_eq_false_iff, List.forall_mem_cons, List.not_mem_nil, Bool.not_eq_true, and_assoc]
  simp only [false_implies, implies_true, and_true]

theorem isSingle_of_isPrint (hp : key.isPrint = true) : isSingle key = true :=
  isSingle_iff.mpr fun c _ => KeyUser.eqCtrl_of_isPrint hp c

theorem isSingle_of_eqCtrl {c : CtrlKeyUser} (hc : key.eqCtrl c = true)
    (hn : c ∉ [keyHome, keyEnd, keyLeft, keyRight, keyUp, keyDown, keyPgUp, keyPgDn, keyCtrlA,
      keyCtrlX]) : isSingle key = true :=
  isSingle_iff.mpr fun _ hd => KeyUser.eqCtrl_of_ne hc fun heq => hn (heq ▸ hd)

theorem isSingle_of_keyIsBackspace (hk : keyIsBackspace key = true) : isSingle key = true := by
  rcases keyIsBackspace_iff.mp hk with hb | hb
  · exact isSingle_of_eqCtrl hb (by decide)
  · exact isSingle_of_eqCtrl hb (by decide)

theorem edited_backspace (hk : keyIsBackspace key = true) : b.edited e key = e.backspace :=
  if_pos hk

theorem edited_print (hacc : b.Accepts key) (hroom : e.text.length < b.mLenMax) :
    b.edited e key = e.insert key.mPrint := by
  have hctrl := KeyUser.eqCtrl_of_isPrint hacc.1
  have hback : ¬ keyIsBackspace key = true := not_keyIsBackspace (hctrl _) (hctrl _)
  rw [edited, if_neg hback, if_neg (hctrl _), if_pos ⟨hacc, hroom⟩]

/-- A box that shows a plain editor shows the edited one after a key, for every printable key,
Backspace, Delete and every other key that is no navigation, Ctrl-A or Ctrl-X. A Backspace takes
back the key before it. -/
theorem single_key_editing (h : b.Shows e) (key : KeyUser) :
    (isSingle key = true → (b.keyProcess key).1.Shows (b.edited e key)) ∧
      (b.Accepts key → e.text.length < b.mLenMax → ∀ back, keyIsBackspace back = true →
        ((b.keyProcess key).1.keyProcess back).1.Shows e) := by
  constructor
  · exact h.keyProcess
  · intro hacc hroom back hback
    have hkey := h.keyProcess (isSingle_of_isPrint hacc.1)
    have htwo := hkey.keyProcess (isSingle_of_keyIsBackspace hback)
    rw [edited_print hacc hroom, edited_backspace hback, PlainEditor.insert_backspace] at htwo
    exact htwo

/-- Seven characters in a window of six positions, the cursor behind them. -/
def scrolledLine : TextBox :=
  new.run [.focusSet true true, .ustrWorkSet (['l', 'i', 's', 't', 'i', 'd', 'x'].map Char.val)]

def scrolledText : PlainEditor Char32 :=
  ⟨['l', 'i', 's', 't', 'i', 'd', 'x'].map Char.val, 7, by decide⟩

theorem scrolledLine_shows : scrolledLine.Shows scrolledText :=
  .of_front (by decide) (by decide) (by decide)
    ⟨⟨by decide, by decide, by decide, by decide, by decide⟩, by decide, by decide, by decide⟩
    (by decide)

theorem single_key_editing_scrolled :
    (scrolledLine.keyProcess (.ofChar 's'.val)).1.Shows (scrolledText.insert 's'.val) ∧
      ((scrolledLine.keyProcess (.ofChar 's'.val)).1.keyProcess (.ofCtrl keyBackspace)).1.Shows
        scrolledText := by
  have hacc : scrolledLine.Accepts (.ofChar 's'.val) := by decide
  have hroom : scrolledText.text.length < scrolledLine.mLenMax := by decide
  obtain ⟨hkey, hback⟩ := single_key_editing scrolledLine_shows (.ofChar 's'.val)
  refine ⟨?_, hback hacc hroom _ (by decide)⟩
  have hedited := hkey (by decide)
  rwa [edited_print hacc hroom] at hedited

end TextBox
end ProcessingCommon
