import ProcessingCommon.TextBox.Dirty
import ProcessingCommon.TextBox.Indexes
import ProcessingCommon.TextBox.ViewIndependence

/-!
# Keys that are ignored

`keyProcess` returns `false` from many places, some of them behind a move or an erase that was
tried on the front index. Each of these reports a change that it made, so a key that is ignored
leaves the box as it was.
-/

namespace ProcessingCommon

namespace ListIdx

variable {x : ListIdx}

theorem reset_honest (h : x.RepInv) : Honest x x.reset := (reset_idle h).2

theorem dec_honest (h : x.RepInv) : Honest x x.dec := (dec_idle h).2

/-- The end of the list has one offset, so a cursor that is there is not scrolled. -/
theorem cursorEndSet_honest (h : x.RepInv) : Honest x x.cursorEndSet := by
  by_cases hs : x.mSize = 0
  · rw [cursorEndSet, if_pos (.inr hs)]
    exact .still x
  · exact (cursorEndSet_idle h hs).2

theorem jumpLoop_honest {move : ListIdx → ListIdx × Bool} (hm : Honest x (move x)) (n : Nat) :
    Honest x (jumpLoop move n (x, false)) := by
  have hidle : IdleIff x (move x) ((move x).2 = false) := ⟨Iff.rfl, hm⟩
  exact (jumpLoop_idle hidle n).2

theorem keyProcess_honest (h : x.RepInv) (key : KeyUser) (dis : List Char32) :
    Honest x (x.keyProcess key dis) :=
  keyProcess_cases (P := Honest x) (inc_honest x) (dec_honest h) (jumpLoop_honest (inc_honest x) _)
    (jumpLoop_honest (dec_honest h) _) (reset_honest h) (cursorEndSet_honest h) (.still x) key dis

theorem prevErase_honest (x : ListIdx) : Honest x x.prevErase := by
  unfold prevErase
  split_ifs
  · exact .still x
  · exact .moved x _
  · exact .moved x _

theorem currErase_honest (x : ListIdx) : Honest x x.currErase := by
  unfold currErase
  split_ifs
  · exact .still x
  · exact .moved x _
  · exact .moved x _

end ListIdx

namespace TextBox

open ListIdx

variable {b : TextBox} {key : KeyUser} {str : StdString}

/-! ## The exits of `keyProcess` -/

/-- A call that returns `false` has not changed the box. -/
def Ignorant (b : TextBox) (r : Result Bool) : Prop := r.2 = .ok false → r.1 = b

theorem Ignorant.same (b : TextBox) (r : Except Exn Bool) : Ignorant b (b, r) := fun _ => rfl

theorem Ignorant.error (b b' : TextBox) (e : Exn) : Ignorant b (b', .error e) := by
  intro hr
  cases hr

theorem Ignorant.dirtySet (b b' : TextBox) : Ignorant b b'.dirtySet := by
  intro hr
  cases hr

theorem replaceDirty_ignorant (b b' : TextBox) (str : StdString) :
    Ignorant b (b'.replaceDirty str) := by
  unfold replaceDirty
  split
  · exact .error b _ _
  · exact .dirtySet b _

theorem keyCut_ignorant (b : TextBox) : Ignorant b b.keyCut := by
  unfold keyCut
  split
  · exact .error b _ _
  split
  · exact .dirtySet b _
  · exact replaceDirty_ignorant b _ _

theorem keyCopy_ignorant (b : TextBox) : Ignorant b b.keyCopy := by
  unfold keyCopy
  split
  · exact .error b _ _
  · intro hr
    cases hr

theorem keySelectAll_ignorant (b : TextBox) : Ignorant b b.keySelectAll := by
  intro hr
  cases hr

theorem keyBackspaceProcess_ignorant (b : TextBox) : Ignorant b b.keyBackspaceProcess := by
  have hprev := prevErase_honest b.mIdxFront
  unfold keyBackspaceProcess
  split
  · exact replaceDirty_ignorant b b _
  dsimp only
  split
  · next herased =>
    rw [Bool.not_eq_true'] at herased
    rw [hprev herased]
    exact .same b _
  split
  · exact .error b _ _
  · exact .dirtySet b _

theorem keyDeleteProcess_ignorant (b : TextBox) : Ignorant b b.keyDeleteProcess := by
  have hcurr := currErase_honest b.mIdxFront
  unfold keyDeleteProcess
  split
  · exact replaceDirty_ignorant b b _
  split
  · exact .same b _
  dsimp only
  split
  · next herased =>
    rw [Bool.not_eq_true'] at herased
    rw [hcurr herased]
    exact .same b _
  split
  · exact .error b _ _
  · exact .dirtySet b _

theorem keyPrintProcess_ignorant (b : TextBox) (key : KeyUser) :
    Ignorant b (b.keyPrintProcess key) := by
  unfold keyPrintProcess
  split
  · exact .same b _
  split
  · split
    · exact .same b _
    · exact replaceDirty_ignorant b b _
  split
  · exact .same b _
  split
  · exact .error b _ _
  · exact .dirtySet b _

theorem keyEdit_ignorant (b : TextBox) (key : KeyUser) : Ignorant b (b.keyEdit key) := by
  unfold keyEdit
  split
  · exact keyBackspaceProcess_ignorant b
  split
  · exact keyDeleteProcess_ignorant b
  split
  · exact .same b _
  · exact keyPrintProcess_ignorant b key

/-! ## Navigation -/

theorem navigateFront_honest (h : b.mIdxFront.RepInv) {r : ListIdx × Bool}
    (hr : b.navigateFront key = some r) : Honest b.mIdxFront r := by
  unfold navigateFront at hr
  split_ifs at hr <;> cases hr
  · exact reset_honest h
  · exact cursorEndSet_honest h
  · exact (cursorJump_idle b key).2
  · exact dec_honest h
  · exact inc_honest b.mIdxFront
  · exact keyProcess_honest h key []

/-- A navigation key is ignored with Shift only, for without it the selection is dropped. -/
theorem navigate_ignored (h : b.mIdxFront.RepInv) (hr : (b.navigate key).2 = false) :
    (b.navigate key).1 = b := by
  revert hr
  unfold navigate
  split
  · exact fun _ => rfl
  · next idxFront changed hnav =>
    have hhonest := navigateFront_honest h hnav
    split
    · intro hchanged
      have hsame : idxFront = b.mIdxFront := hhonest hchanged
      rw [hsame]
    · intro hchanged
      cases hchanged

/-! ## The indexes -/

/-- A width can be added to both sizes. -/
def RoomForWidth (b : TextBox) : Prop :=
  b.mIdxFront.mSize.toNat + 2 ^ 16 ≤ 2 ^ 32 ∧ b.mIdxBack.mSize.toNat + 2 ^ 16 ≤ 2 ^ 32

theorem widthSet_repInv (h : b.Indexes RepInv) (hroom : b.RoomForWidth) (width : UInt16) :
    (b.widthSet width).Indexes RepInv := by
  obtain ⟨hfront, hback⟩ := hroom
  rcases widthSet_cases b width with hb | ⟨win, hwin, hb⟩
  · rw [hb]
    exact h
  · rw [hb]
    exact ⟨winSet_repInv h.1 (by omega), winSet_repInv h.2 (by omega)⟩

/-- The runs that set a width only while the sizes leave room for it. Whatever else happens,
selections and texts of any length included, the indexes stay well formed. -/
theorem run_repInv (h : Transition.Reachable (· = new)
    (Transition.guarded (fun b op => Op.isLayout op = true → RoomForWidth b)
      (Transition.ofFun apply)) b) : b.Indexes RepInv := by
  refine h.invariant ?_ ?_
  · intro s hs
    rw [hs]
    exact ⟨new_consistent.front, new_consistent.back⟩
  · rintro s op t hs ⟨hok, rfl⟩
    cases hop : op.isLayout with
    | false => exact hs.apply kept_repInv hop
    | true =>
      have hroom := hok hop
      cases op with
      | widthSet width => exact widthSet_repInv hs hroom width
      | frameEnabledSet val =>
        exact widthSet_repInv (b := { s with mFrameEnabled := val }) hs hroom s.mWidth
      | paddingEnabledSet val =>
        exact widthSet_repInv (b := { s with mPaddingEnabled := val }) hs hroom s.mWidth
      | _ => cases hop

/-! ## Every key -/

/-- A key for which `keyProcess` returns `false` changes nothing but the flag that the call
clears: texts, clipboard and both indexes are what they were. -/
theorem keyProcess_ignored (h : b.mIdxFront.RepInv) (hr : (b.keyProcess key).2 = .ok false) :
    (b.keyProcess key).1 = { b with mDirty := false } := by
  have hclean : RepInv (mIdxFront { b with mDirty := false }) := h
  revert hr
  show Ignorant { b with mDirty := false } (b.keyProcess key)
  unfold keyProcess
  dsimp only
  split
  · exact keyCut_ignorant _
  split
  · exact keyCopy_ignorant _
  split
  · exact .same _ _
  split
  · exact keySelectAll_ignorant _
  split
  · exact .dirtySet _ _
  · next hstill =>
    rw [Bool.not_eq_true] at hstill
    rw [navigate_ignored hclean hstill]
    exact keyEdit_ignorant _ key

def lastCell : TextBox :=
  new.run [.focusSet true true, .ustrWorkSet (List.replicate 12 'a'.val)]

def keyShiftEnd : KeyUser := { KeyUser.ofCtrl keyEnd with mModShift := true }

/-- Shift-End behind the last character of a scrolled text. -/
theorem keyProcess_ignored_end :
    (lastCell.keyProcess keyShiftEnd).1 = { lastCell with mDirty := false } :=
  keyProcess_ignored ⟨by decide, by decide, by decide, by decide, by decide⟩ (by decide)

end TextBox
end ProcessingCommon
