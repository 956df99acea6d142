import ProcessingCommon.ListIdxInvariant
import ProcessingCommon.TextBox.Texts

/-!
# What the calls do to the indexes

The calls resize the indexes, move their cursors and copy one to the other. A property that these
steps keep is kept by every call but the three that set the window.
-/

namespace ProcessingCommon

namespace ListIdx

/-- The single steps, but `winSet`, keep the property. -/
structure Kept (P : ListIdx → Prop) : Prop where
  sizeSet : ∀ {x}, P x → ∀ size, P (x.sizeSet size)
  cursorBoundSet : ∀ {x}, P x → ∀ bnd, P (x.cursorBoundSet bnd)
  reset : ∀ {x}, P x → P x.reset.1
  cursorEndSet : ∀ {x}, P x → P x.cursorEndSet.1
  inc : ∀ {x}, P x → P x.inc.1
  dec : ∀ {x}, P x → P x.dec.1
  decOffset : ∀ {x}, P x → P x.decOffset.1
  incCursor : ∀ {x}, P x → P x.incCursor.1

variable {P : ListIdx → Prop} {x : ListIdx}

/-- A jump keeps what its steps keep. -/
theorem jumpLoop_kept {move : ListIdx → ListIdx × Bool}
    (hm : ∀ {x}, P x → P (move x).1) (h : P x) (n : Nat) (changed : Bool) :
    P (jumpLoop move n (x, changed)).1 := by
  induction n generalizing x changed with
  | zero => exact h
  | succ n ih => exact ih (hm h) _

namespace Kept

theorem insert (hk : Kept P) (h : P x) : P x.insert := hk.inc (hk.sizeSet h _)

theorem iterate_insert (hk : Kept P) (h : P x) (n : Nat) : P (ListIdx.insert^[n] x) :=
  Function.Iterate.rec P h (fun _ hx => hk.insert hx) n

theorem iterate_inc (hk : Kept P) (h : P x) (n : Nat) : P ((fun x => x.inc.1)^[n] x) :=
  Function.Iterate.rec P h (fun _ hx => hk.inc hx) n

theorem currErase (hk : Kept P) (h : P x) : P x.currErase.1 := by
  unfold ListIdx.currErase
  split
  · exact h
  · dsimp only
    split
    · exact hk.sizeSet (hk.incCursor (hk.decOffset h)) _
    · exact hk.sizeSet h _

theorem prevErase (hk : Kept P) (h : P x) : P x.prevErase.1 := by
  unfold ListIdx.prevErase
  split
  · exact h
  · dsimp only
    split
    · exact hk.sizeSet (hk.decOffset h) _
    · exact hk.sizeSet (hk.dec h) _

theorem keyProcess (hk : Kept P) (h : P x) (key : KeyUser) (dis : List Char32) :
    P (x.keyProcess key dis).1 :=
  keyProcess_cases (P := fun r => P r.1) (hk.inc h) (hk.dec h) (jumpLoop_kept hk.inc h _ _)
    (jumpLoop_kept hk.dec h _ _) (hk.reset h) (hk.cursorEndSet h) h key dis

end Kept

/-- The window is given by `winSet` alone. -/
theorem kept_win (Q : UInt32 → Prop) : Kept fun x => Q x.mWin where
  sizeSet h _ := (sizeSet_mWin _ _).symm ▸ h
  cursorBoundSet h bnd := (cursorBoundSet_frame _ bnd).1.symm ▸ h
  reset h := h
  cursorEndSet h := (cursorEndSet_same _).win.symm ▸ h
  inc h := (inc_same _).win.symm ▸ h
  dec h := (dec_same _).win.symm ▸ h
  decOffset h := (decOffset_same _).win.symm ▸ h
  incCursor h := (incCursor_same _).win.symm ▸ h

theorem kept_repInv : Kept RepInv where
  sizeSet := sizeSet_repInv
  cursorBoundSet := cursorBoundSet_repInv
  reset := reset_repInv
  cursorEndSet := cursorEndSet_repInv
  inc := inc_repInv
  dec := dec_repInv
  decOffset := decOffset_repInv
  incCursor := incCursor_repInv

end ListIdx

namespace TextBox

open ListIdx

/-- Both indexes have the property. -/
def Indexes (P : ListIdx → Prop) (b : TextBox) : Prop := P b.mIdxFront ∧ P b.mIdxBack

variable {P : ListIdx → Prop} {b b' : TextBox} {str : StdString} {α : Type}

namespace Indexes

theorem low (h : b.Indexes P) : P b.listIdxLow := by
  unfold listIdxLow
  split
  · exact h.2
  · exact h.1

theorem selectionClear (hk : Kept P) (h : b.Indexes P) : b.selectionClear.1.Indexes P := by
  unfold TextBox.selectionClear
  split
  · exact h
  · exact ⟨hk.sizeSet h.low _, hk.sizeSet h.low _⟩

theorem selectionInsert (hk : Kept P) (h : b.Indexes P) (str : StdString) :
    (b.selectionInsert str).1.Indexes P := by
  unfold TextBox.selectionInsert
  split
  · exact h
  · dsimp only
    split
    · exact h
    · exact ⟨hk.iterate_insert h.1 _, hk.iterate_insert h.1 _⟩

theorem selectionReplace (hk : Kept P) (h : b.Indexes P) (str : StdString) :
    (b.selectionReplace str).1.Indexes P := by
  have hclear := selectionClear hk h
  unfold TextBox.selectionReplace
  split
  · next hc =>
    rw [hc] at hclear
    exact hclear
  · next hc =>
    rw [hc] at hclear
    exact selectionInsert hk hclear str

theorem replaceDirty (hk : Kept P) (h : b.Indexes P) (str : StdString) :
    (b.replaceDirty str).1.Indexes P := by
  have hreplace := selectionReplace hk h str
  unfold TextBox.replaceDirty
  split
  · next hr =>
    rw [hr] at hreplace
    exact hreplace
  · next hr =>
    rw [hr] at hreplace
    exact hreplace

/-! ## Keys -/

theorem cursorJump (hk : Kept P) (h : P b.mIdxFront) (key : KeyUser) : P (b.cursorJump key).1 := by
  have hmove : ∀ x, P x → P (jumpMove (key.eqCtrl keyRight) x) := by
    intro x hx
    unfold jumpMove
    split
    · exact hk.inc hx
    · exact hk.dec hx
  obtain ⟨k, hj⟩ := b.cursorJump_rounds key
  rw [hj]
  exact Function.Iterate.rec P h hmove k

theorem navigateFront (hk : Kept P) (h : P b.mIdxFront) {key : KeyUser} {r : ListIdx × Bool}
    (hr : b.navigateFront key = some r) : P r.1 := by
  unfold TextBox.navigateFront at hr
  split_ifs at hr <;> cases hr
  · exact hk.reset h
  · exact hk.cursorEndSet h
  · exact cursorJump hk h key
  · exact hk.dec h
  · exact hk.inc h
  · exact hk.keyProcess h key []

theorem navigate (hk : Kept P) (h : b.Indexes P) (key : KeyUser) :
    (b.navigate key).1.Indexes P := by
  unfold TextBox.navigate
  split
  · exact h
  · next hr =>
    have hfront := navigateFront hk h.1 hr
    split
    · exact ⟨hfront, h.2⟩
    · exact ⟨hfront, hfront⟩

theorem clipboardSet (h : b.Indexes P) : b.clipboardSet.1.Indexes P := by
  rcases clipboardSet_cases b with ⟨clip, hc, -⟩ | ⟨e, hc, -⟩
  · rw [hc]
    exact h
  · rw [hc]
    exact h

theorem keyCut (hk : Kept P) (h : b.Indexes P) : b.keyCut.1.Indexes P := by
  have hclip := clipboardSet h
  unfold TextBox.keyCut
  split
  · next hc =>
    rw [hc] at hclip
    exact hclip
  · next hc =>
    rw [hc] at hclip
    split
    · exact hclip
    · exact replaceDirty hk hclip _

theorem keyCopy (h : b.Indexes P) : b.keyCopy.1.Indexes P := by
  have hclip := clipboardSet h
  unfold TextBox.keyCopy
  split
  · next hc =>
    rw [hc] at hclip
    exact hclip
  · next hc =>
    rw [hc] at hclip
    exact hclip

theorem keyBackspaceProcess (hk : Kept P) (h : b.Indexes P) :
    b.keyBackspaceProcess.1.Indexes P := by
  have hprev := hk.prevErase h.1
  unfold TextBox.keyBackspaceProcess
  split
  · exact replaceDirty hk h _
  dsimp only
  split
  · exact ⟨hprev, h.2⟩
  split
  · exact ⟨hprev, h.2⟩
  · exact ⟨hprev, hprev⟩

theorem keyDeleteProcess (hk : Kept P) (h : b.Indexes P) : b.keyDeleteProcess.1.Indexes P := by
  have hcurr := hk.currErase h.1
  unfold TextBox.keyDeleteProcess
  split
  · exact replaceDirty hk h _
  split
  · exact h
  dsimp only
  split
  · exact ⟨hcurr, h.2⟩
  split
  · exact ⟨hcurr, hcurr⟩
  · exact ⟨hcurr, hcurr⟩

theorem keyPrintProcess (hk : Kept P) (h : b.Indexes P) (key : KeyUser) :
    (b.keyPrintProcess key).1.Indexes P := by
  have hinsert := hk.insert h.1
  unfold TextBox.keyPrintProcess
  split
  · exact h
  split
  · split
    · exact h
    · exact replaceDirty hk h _
  split
  · exact h
  split
  · exact h
  · exact ⟨hinsert, hinsert⟩

theorem keyEdit (hk : Kept P) (h : b.Indexes P) (key : KeyUser) :
    (b.keyEdit key).1.Indexes P := by
  unfold TextBox.keyEdit
  split
  · exact keyBackspaceProcess hk h
  split
  · exact keyDeleteProcess hk h
  split
  · exact h
  · exact keyPrintProcess hk h key

theorem keyProcess (hk : Kept P) (h : b.Indexes P) (key : KeyUser) :
    (b.keyProcess key).1.Indexes P := by
  have hclean : Indexes P { b with mDirty := false } := h
  have hnav := navigate hk hclean key
  unfold TextBox.keyProcess
  dsimp only
  split
  · exact keyCut hk hclean
  split
  · exact keyCopy hclean
  split
  · exact hclean
  split
  · exact ⟨hk.cursorEndSet h.1, hk.reset h.2⟩
  split
  · exact hnav
  · exact keyEdit hk hnav key

/-! ## The other calls -/

theorem currentSet (hk : Kept P) (h : b.Indexes P) (str : StdString) :
    (b.currentSet str).1.Indexes P := by
  unfold TextBox.currentSet
  cases strToUtf str with
  | none => exact h
  | some ustr =>
    dsimp only
    split
    · exact h
    · exact ⟨hk.sizeSet h.1 _, hk.sizeSet h.2 _⟩

theorem focusSet (hk : Kept P) (h : b.Indexes P) (foc accept : Bool) :
    (b.focusSet foc accept).1.Indexes P := by
  cases foc with
  | true =>
    have hfront := hk.cursorEndSet (hk.sizeSet h.1 (sizeToU32 (b.mUstrCurrent.length + 1)))
    exact ⟨hfront, hfront⟩
  | false =>
    have hfront : ∀ n, P (b.mIdxFront.assign n).reset.1 := fun n => hk.reset (hk.sizeSet h.1 n)
    simp only [TextBox.focusSet, Bool.false_eq_true, if_false]
    cases accept with
    | false => exact ⟨hfront _, hfront _⟩
    | true =>
      simp only [if_true]
      split
      · exact h
      · exact ⟨hfront _, hfront _⟩

theorem selectionSet (hk : Kept P) (h : b.Indexes P) (idxStart len : UInt16) :
    (b.selectionSet idxStart len).Indexes P := by
  have hback : ∀ n, P ((fun x => x.inc.1)^[n] b.mIdxFront.reset.1) := hk.iterate_inc (hk.reset h.1)
  exact ⟨hk.iterate_inc (hback _) _, hback _⟩

theorem ustrWorkSet (hk : Kept P) (h : b.Indexes P) (ustr : U32String) :
    (b.ustrWorkSet ustr).Indexes P := by
  have hfront := hk.cursorEndSet (hk.sizeSet h.1 (sizeToU32 (ustr.length + 1)))
  unfold TextBox.ustrWorkSet
  extract_lets c
  split
  · exact h
  · exact ⟨hfront, hfront⟩

theorem paste (hk : Kept P) (h : b.Indexes P) (str : StdString) : (b.paste str).1.Indexes P := by
  unfold TextBox.paste
  split
  · exact currentSet hk h str
  · exact selectionReplace hk h str

end Indexes

/-- The calls that set the window. -/
def Op.isLayout : Op → Bool
  | .widthSet _ | .frameEnabledSet _ | .paddingEnabledSet _ => true
  | _ => false

theorem Indexes.apply (hk : Kept P) (h : b.Indexes P) {op : Op} (hop : op.isLayout = false) :
    (b.apply op).Indexes P := by
  cases op with
  | widthSet | frameEnabledSet | paddingEnabledSet => cases hop
  | cursorBoundSet bnd => exact ⟨hk.cursorBoundSet h.1 bnd, hk.cursorBoundSet h.2 bnd⟩
  | focusSet foc accept => exact h.focusSet hk foc accept
  | selectionSet idxStart len => exact h.selectionSet hk idxStart len
  | currentSet str => exact h.currentSet hk str
  | ustrWorkSet ustr => exact h.ustrWorkSet hk ustr
  | paste str => exact h.paste hk str
  | keyProcess key => exact h.keyProcess hk key
  | clipboard clear => cases clear <;> exact h
  | _ => exact h

end TextBox
end ProcessingCommon
