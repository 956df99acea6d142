import ProcessingCommon.TextBox.Indexes
import ProcessingCommon.TextBox.Tokens

/-!
# The width of the output

`print` fills the window and puts frame and padding around it. `widthSet` makes the window smaller
by these; the constructor does not, so a box is four cells too wide until it is laid out.
-/

namespace ProcessingCommon
namespace TextBox

/-- The cells that `print` takes on the terminal. -/
def visibleCells (b : TextBox) : Nat := b.tokens.countP Token.isVisible

/-- The cells of frame and padding. -/
def borderCells (b : TextBox) : Nat :=
  (if b.mFrameEnabled then 2 else 0) + if b.mPaddingEnabled then 2 else 0

/-- The call sets the window: `widthSet` refuses a width below four. -/
def Op.laysOut : Op → Bool
  | .widthSet width => decide (dSizeWidthMin ≤ width)
  | .frameEnabledSet _ | .paddingEnabledSet _ => true
  | _ => false

variable {b b' : TextBox} {op : Op}

/-! ## What is visible -/

theorem modifier_not_visible (isSelection : Bool) : (modifier isSelection).isVisible = false := by
  cases isSelection <;> rfl

theorem switches_countP (idxAbs : Nat) : (b.switches idxAbs).countP Token.isVisible = 0 := by
  unfold switches
  rw [List.countP_append]
  split <;> split <;> rfl

/-- Every round fills one cell, with a mark or with the text. -/
theorem cellTokens_countP (c : Cell) : (b.cellTokens c).countP Token.isVisible = 1 := by
  cases c with
  | mark ch => rfl
  | text idxAbs ch underlined =>
    unfold cellTokens
    dsimp only
    rw [List.countP_append, switches_countP]
    cases underlined with
    | false => rfl
    | true =>
      simp only [if_true, List.countP_cons, modifier_not_visible, List.countP_nil]
      rfl

theorem cells_countP (cs : List Cell) :
    (cs.flatMap b.cellTokens).countP Token.isVisible = cs.length := by
  induction cs with
  | nil => rfl
  | cons c cs ih =>
    rw [List.flatMap_cons, List.countP_append, cellTokens_countP, ih, List.length_cons,
      Nat.add_comm]

theorem frameTokens_countP (foc noFoc : Char) :
    (b.frameTokens foc noFoc).countP Token.isVisible = (if b.mFrameEnabled then 1 else 0) ∧
      b.paddingTokens.countP Token.isVisible = if b.mPaddingEnabled then 1 else 0 := by
  unfold frameTokens paddingTokens
  constructor <;> split <;> rfl

theorem visibleCells_eq (b : TextBox) :
    b.visibleCells = b.borderCells + b.mIdxFront.win.toNat := by
  have hcells : b.cells.length = b.mIdxFront.win.toNat := by
    rw [cells, List.length_map, List.length_range]
  unfold visibleCells borderCells tokens headTokens tailTokens
  simp only [List.countP_append, List.countP_cons, List.countP_nil, cells_countP, hcells,
    (frameTokens_countP _ _).1, (frameTokens_countP '<' '|').2, modifier_not_visible]
  simp only [Token.isVisible, Bool.false_eq_true, if_false]
  split <;> split <;> omega

/-! ## The layout -/

/-- The windows are what frame and padding leave of the width. -/
structure LaidOut (b : TextBox) : Prop where
  width : 4 ≤ b.mWidth.toNat
  window : b.Indexes fun x => b.borderCells + x.mWin.toNat = b.mWidth.toNat

/-- The layout of the constructor. -/
structure AsConstructed (b : TextBox) : Prop where
  width : b.mWidth = 10
  frame : b.mFrameEnabled = true
  padding : b.mPaddingEnabled = true
  window : b.Indexes fun x => x.mWin = 10

theorem LaidOut.visibleCells (h : b.LaidOut) : b.visibleCells = b.mWidth.toNat := by
  rw [visibleCells_eq]
  exact h.window.1

theorem AsConstructed.visibleCells (h : b.AsConstructed) : b.visibleCells ≠ b.mWidth.toNat := by
  rw [visibleCells_eq, borderCells, h.frame, h.padding, h.width,
    show b.mIdxFront.win = 10 from h.window.1]
  decide

/-- One step of the width calculation, which never goes below zero. -/
theorem narrowed_eq (on : Bool) {width : UInt16} (hw : 2 ≤ width.toNat) :
    (if on then width - 2 else width).toNat + (if on then 2 else 0) = width.toNat := by
  have := width.toNat_lt
  have h2 : (2 : UInt16).toNat = 2 := rfl
  cases on with
  | false => rfl
  | true =>
    rw [if_pos rfl, if_pos rfl, UInt16.toNat_sub, h2]
    omega

theorem widthSet_laidOut (b : TextBox) {width : UInt16} (hw : dSizeWidthMin ≤ width) :
    (b.widthSet width).LaidOut := by
  have h4 : 4 ≤ width.toNat := UInt16.le_iff_toNat_le.mp hw
  have hge : ¬ width < dSizeWidthMin := UInt16.not_lt.mpr hw
  unfold widthSet
  rw [if_neg hge]
  extract_lets b' width' width'' idxFront
  have h1 : width'.toNat + (if b.mFrameEnabled then 2 else 0) = width.toNat :=
    narrowed_eq b.mFrameEnabled (by omega)
  have h2 : width''.toNat + (if b.mPaddingEnabled then 2 else 0) = width'.toNat := by
    refine narrowed_eq b.mPaddingEnabled ?_
    split at h1 <;> omega
  have hwin : idxFront.win = width''.toUInt32 := ListIdx.winSet_mWin _ _
  have hsum : (if b.mFrameEnabled then 2 else 0) + (if b.mPaddingEnabled then 2 else 0) +
      width''.toUInt32.toNat = width.toNat := by
    rw [UInt16.toNat_toUInt32]
    omega
  refine ⟨h4, ?_, ?_⟩
  · show _ + (ListIdx.winSet _ _).mWin.toNat = _
    rw [ListIdx.winSet_mWin]
    exact hsum
  · show _ + (ListIdx.winSet _ _).mWin.toNat = _
    rw [ListIdx.winSet_mWin, hwin]
    exact hsum

/-! ## The calls -/

/-- Width and decoration are the same. -/
structure SameLayout (b b' : TextBox) : Prop where
  width : b'.mWidth = b.mWidth
  frame : b'.mFrameEnabled = b.mFrameEnabled
  padding : b'.mPaddingEnabled = b.mPaddingEnabled

theorem SameLayout.borderCells (h : SameLayout b b') : b'.borderCells = b.borderCells := by
  rw [TextBox.borderCells, h.frame, h.padding]
  rfl

theorem apply_sameLayout (b : TextBox) (hop : op.isLayout = false) :
    SameLayout b (b.apply op) := by
  cases hconfig : op.isConfig with
  | false =>
    by_cases hset : ∃ only, op = .numbersOnlySet only
    · obtain ⟨only, rfl⟩ := hset
      exact ⟨rfl, rfl, rfl⟩
    · have hc := apply_config b hconfig fun only h => hset ⟨only, h⟩
      exact ⟨(congrArg mWidth hc :), (congrArg mFrameEnabled hc :),
        (congrArg mPaddingEnabled hc :)⟩
  | true =>
    cases op with
    | widthSet | frameEnabledSet | paddingEnabledSet => cases hop
    | focusSet | numbersOnlySet | currentSet | ustrWorkSet | paste | keyProcess => cases hconfig
    | clipboard clear => cases clear <;> exact ⟨rfl, rfl, rfl⟩
    | _ => exact ⟨rfl, rfl, rfl⟩

/-- A refused width changes nothing. -/
theorem widthSet_refused {width : UInt16} (hw : ¬ dSizeWidthMin ≤ width) :
    b.widthSet width = b := by
  unfold widthSet
  exact if_pos (UInt16.not_le.mp hw)

/-- A call that lays out does so whatever the box was like, but frame and padding need a
width. -/
theorem laysOut_laidOut (hw : 4 ≤ b.mWidth.toNat) (hop : op.laysOut = true) :
    (b.apply op).LaidOut := by
  have hmin : dSizeWidthMin ≤ b.mWidth := UInt16.le_iff_toNat_le.mpr hw
  cases op with
  | widthSet width => exact b.widthSet_laidOut (of_decide_eq_true hop)
  | frameEnabledSet val => exact widthSet_laidOut { b with mFrameEnabled := val } hmin
  | paddingEnabledSet val => exact widthSet_laidOut { b with mPaddingEnabled := val } hmin
  | _ => cases hop

/-- The other calls keep the layout. -/
theorem apply_cases (b : TextBox) (hop : op.laysOut = false) :
    b.apply op = b ∨ op.isLayout = false := by
  cases op with
  | widthSet width => exact .inl (widthSet_refused (of_decide_eq_false hop))
  | frameEnabledSet | paddingEnabledSet => cases hop
  | _ => exact .inr rfl

theorem LaidOut.apply (h : b.LaidOut) (op : Op) : (b.apply op).LaidOut := by
  cases hop : op.laysOut with
  | true => exact laysOut_laidOut h.width hop
  | false =>
    rcases b.apply_cases hop with he | hl
    · rw [he]
      exact h
    · have hs := b.apply_sameLayout hl
      have hi := h.window.apply (ListIdx.kept_win fun win =>
        b.borderCells + win.toNat = b.mWidth.toNat) hl
      refine ⟨by rw [hs.width]; exact h.width, ?_⟩
      rw [hs.borderCells, hs.width]
      exact hi

theorem AsConstructed.apply (h : b.AsConstructed) (hop : op.laysOut = false) :
    (b.apply op).AsConstructed := by
  rcases b.apply_cases hop with he | hl
  · rw [he]
    exact h
  · have hs := b.apply_sameLayout hl
    exact ⟨hs.width.trans h.width, hs.frame.trans h.frame, hs.padding.trans h.padding,
      h.window.apply (ListIdx.kept_win (· = 10)) hl⟩

/-! ## Runs -/

theorem LaidOut.run (h : b.LaidOut) (ops : List Op) : (b.run ops).LaidOut := by
  induction ops generalizing b with
  | nil => exact h
  | cons op ops ih => exact ih (h.apply op)

/-- The first call that lays out decides. -/
theorem AsConstructed.run (h : b.AsConstructed) (ops : List Op) :
    if ops.any Op.laysOut then (b.run ops).LaidOut else (b.run ops).AsConstructed := by
  induction ops generalizing b with
  | nil => exact h
  | cons op ops ih =>
    rw [List.any_cons]
    cases hop : op.laysOut with
    | true =>
      have hw : 4 ≤ b.mWidth.toNat := by
        rw [h.width]
        decide
      exact (laysOut_laidOut hw hop).run ops
    | false => exact ih (h.apply hop)

theorem new_asConstructed : new.AsConstructed := by
  rw [new_eq]
  exact ⟨rfl, rfl, rfl, by decide, by decide⟩

/-- In every state of every run `print` writes as many cells as the box is wide if and only if the
window has been set since the construction and what is shown can be converted. -/
theorem rendered_width (ops : List Op) (m : Modifiers) :
    (new.run ops).Writes m (new.run ops).tokens ∧
        (new.run ops).visibleCells = (new.run ops).mWidth.toNat ↔
      ops.any Op.laysOut = true ∧ (new.run ops).Printable m := by
  rw [writes_iff, and_comm]
  refine and_congr_left fun _ => ?_
  have hrun := new_asConstructed.run ops
  cases hany : ops.any Op.laysOut with
  | true =>
    rw [hany] at hrun
    exact iff_of_true (LaidOut.visibleCells hrun) rfl
  | false =>
    rw [hany] at hrun
    exact iff_of_false (AsConstructed.visibleCells hrun) Bool.false_ne_true

/-- A new box of width 10 writes 14 cells; one that is laid out and shows a code point outside of
Unicode writes nothing. -/
theorem rendered_width_fails :
    (new.Writes {} new.tokens ∧ new.visibleCells = 14 ∧ new.mWidth = 10) ∧
      (new.run [.widthSet 10, .focusSet true true, .ustrWorkSet [0x110000]]).print {} = none := by
  rw [new_eq]
  refine ⟨⟨Printable.writes ?_, by decide⟩, ?_⟩
  · exact printable_of_encodable (by constructor <;> decide +kernel)
      fun _ h => absurd h List.not_mem_nil
  · rw [print_eq_none]
    intro h
    have hvalid : (0x110000 : UInt32).isValidChar := h (.text 0 0x110000) (by decide +kernel)
    exact absurd hvalid (by decide)

end TextBox
end ProcessingCommon
