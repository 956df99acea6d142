import ProcessingCommon.TextBox.CursorCell
import ProcessingCommon.TextBox.Tokens

/-!
# What is seen of the text

With the focus a line shows one piece of the text around the cursor, one position in a cell. The
mark at its left stands there exactly if the piece does not begin with the text, the mark at its
right exactly if it ends before the text does. Behind the text there are blanks.
-/

namespace ProcessingCommon
namespace TextBox

variable {b : TextBox}

/-! ## Characters of the line -/

/-- The character that a token puts on the terminal. -/
def Token.seen : Token → Option Char32
  | .border ch | .mark ch => some ch.val
  | .text _ ch => some ch
  | _ => none

/-- The characters that `print` puts on the terminal, without the modifiers between them. -/
def line (b : TextBox) : U32String := b.tokens.filterMap Token.seen

def Cell.seen : Cell → Char32
  | .mark ch => ch.val
  | .text _ ch _ => ch

/-- The text, or its mask. -/
def displayed (b : TextBox) : U32String :=
  if b.mPasswordMode then List.replicate b.shown.length '*'.val else b.shown

/-- Frame and padding on one side, the frame outside. -/
def frameSeen (b : TextBox) (foc noFoc : Char) : U32String :=
  if b.mFrameEnabled then [if b.mFocus then foc.val else noFoc.val] else []

def paddingSeen (b : TextBox) : U32String := if b.mPaddingEnabled then [' '.val] else []

def markSeen (hidden : Bool) (ch : Char) : U32String := if hidden then [ch.val] else []

/-- The positions from `lo` to `hi` of the text, and blanks behind it. -/
def piece (b : TextBox) (lo hi : Nat) : U32String :=
  (List.range' lo (hi - lo)).map fun p => b.displayed.getD p ' '.val

theorem filterMap_switches (idxAbs : Nat) : (b.switches idxAbs).filterMap Token.seen = [] := by
  unfold switches
  rw [List.filterMap_append]
  split <;> split <;> rfl

theorem modifier_seen (isSelection : Bool) : (modifier isSelection).seen = none := by
  cases isSelection <;> rfl

theorem filterMap_cellTokens (c : Cell) : (b.cellTokens c).filterMap Token.seen = [c.seen] := by
  cases c with
  | mark ch => rfl
  | text idxAbs ch underlined =>
    simp only [cellTokens, List.filterMap_append, filterMap_switches, List.nil_append]
    cases underlined with
    | false => rfl
    | true =>
      simp only [if_true, List.filterMap_cons, modifier_seen, List.filterMap_nil]
      rfl

theorem filterMap_cells (cs : List Cell) :
    (cs.flatMap b.cellTokens).filterMap Token.seen = cs.map Cell.seen := by
  induction cs with
  | nil => rfl
  | cons c cs ih =>
    rw [List.flatMap_cons, List.filterMap_append, filterMap_cellTokens, ih]
    rfl

theorem filterMap_frameTokens (foc noFoc : Char) :
    (b.frameTokens foc noFoc).filterMap Token.seen = b.frameSeen foc noFoc := by
  unfold frameTokens frameSeen
  cases b.mFrameEnabled <;> cases b.mFocus <;> rfl

theorem filterMap_paddingTokens : b.paddingTokens.filterMap Token.seen = b.paddingSeen := by
  unfold paddingTokens paddingSeen
  cases b.mPaddingEnabled <;> rfl

theorem filterMap_headTokens :
    b.headTokens.filterMap Token.seen = b.frameSeen '>' '|' ++ b.paddingSeen := by
  rw [headTokens, List.filterMap_cons_none rfl, List.filterMap_append, List.filterMap_append,
    filterMap_frameTokens, filterMap_paddingTokens, List.filterMap_cons_none rfl,
    List.filterMap_cons_none (modifier_seen _), List.filterMap_nil, List.append_nil]

theorem filterMap_tailTokens :
    b.tailTokens.filterMap Token.seen = b.paddingSeen ++ b.frameSeen '<' '|' := by
  simp only [tailTokens, List.filterMap_append, filterMap_frameTokens, filterMap_paddingTokens]
  exact List.append_nil _

theorem line_eq (b : TextBox) : b.line = b.frameSeen '>' '|' ++ b.paddingSeen ++
    b.cells.map Cell.seen ++ (b.paddingSeen ++ b.frameSeen '<' '|') := by
  rw [line, tokens, List.filterMap_append, List.filterMap_append, filterMap_headTokens,
    filterMap_cells, filterMap_tailTokens]

theorem shownChar_eq (b : TextBox) (p : Nat) : b.shownChar p = b.displayed.getD p ' '.val := by
  unfold shownChar displayed
  dsimp only
  rw [List.length_append, List.length_singleton, Nat.add_sub_cancel, charAt,
    List.getD_eq_getElem?_getD, List.getD_eq_getElem?_getD]
  rcases Nat.lt_or_ge p b.shown.length with hlt | hge
  · rw [if_neg (by omega), decide_eq_true hlt, Bool.and_true, List.getElem?_append_left hlt,
      List.getElem?_eq_getElem hlt]
    cases b.mPasswordMode with
    | false =>
      rw [if_neg Bool.false_ne_true, if_neg Bool.false_ne_true, List.getElem?_eq_getElem hlt]
      rfl
    | true => rw [if_pos rfl, if_pos rfl, List.getElem?_replicate, if_pos hlt, Option.getD_some]
  · have hnone : (if b.mPasswordMode then List.replicate b.shown.length '*'.val
        else b.shown)[p]? = none := by
      split
      · rw [List.getElem?_replicate, if_neg (by omega)]
      · exact List.getElem?_eq_none hge
    rw [hnone, Option.getD_none, decide_eq_false (Nat.not_lt.mpr hge), Bool.and_false,
      if_neg Bool.false_ne_true]
    split
    · rfl
    · next hlt =>
      obtain rfl : p = b.shown.length := by omega
      rw [List.getElem?_concat_length]
      rfl

/-! ## The cells of the window -/

/-- Between the first and the last round there are no marks. -/
theorem cell_middle {j : Nat} (h0 : 0 < j) (hlast : j < b.mIdxFront.win.toNat - 1) :
    (b.cell j).seen = b.displayed.getD (b.mIdxFront.offset.toNat + j) ' '.val := by
  rw [cell, if_neg fun h => absurd h.1 (Nat.ne_of_gt h0),
    if_neg fun h => absurd h.1 (Nat.ne_of_lt hlast)]
  exact b.shownChar_eq _

theorem cell_first (hwin : 3 ≤ b.mIdxFront.win.toNat) :
    (b.cell 0).seen = if b.mIdxFront.offset = 0
      then b.displayed.getD b.mIdxFront.offset.toNat ' '.val
      else '\u00AB'.val := by
  rw [cell]
  split
  · next h => rw [if_neg h.2]; rfl
  · next h =>
    have h0 : b.mIdxFront.offset = 0 := not_not.mp fun hne => h ⟨rfl, hne⟩
    rw [if_pos h0, if_neg fun h => absurd h.1 (by omega)]
    exact b.shownChar_eq _

theorem cell_last (hwin : 3 ≤ b.mIdxFront.win.toNat) :
    (b.cell (b.mIdxFront.win.toNat - 1)).seen = if b.mIdxFront.endReached
      then b.displayed.getD (b.mIdxFront.offset.toNat + (b.mIdxFront.win.toNat - 1)) ' '.val
      else '\u00BB'.val := by
  rw [cell]
  rw [if_neg fun h => absurd h.1 (by omega)]
  cases b.mIdxFront.endReached with
  | false => rw [if_pos ⟨rfl, rfl⟩, if_neg Bool.false_ne_true]; rfl
  | true => rw [if_neg fun h => absurd h.2 Bool.false_ne_true, if_pos rfl]; exact b.shownChar_eq _

theorem cells_seen (hwin : 3 ≤ b.mIdxFront.win.toNat) : b.cells.map Cell.seen =
    (b.cell 0).seen :: (b.piece (b.mIdxFront.offset.toNat + 1)
      (b.mIdxFront.offset.toNat + b.mIdxFront.win.toNat - 1) ++
      [(b.cell (b.mIdxFront.win.toNat - 1)).seen]) := by
  obtain ⟨n, hn⟩ : ∃ n, b.mIdxFront.win.toNat = n + 2 := ⟨b.mIdxFront.win.toNat - 2, by omega⟩
  have hmiddle : ∀ j ∈ List.range' 1 n, (b.cell j).seen =
      b.displayed.getD (b.mIdxFront.offset.toNat + j) ' '.val := by
    intro j hj
    obtain ⟨h1, hlt⟩ := List.mem_range'_1.mp hj
    exact cell_middle h1 (by omega)
  have hsize : b.mIdxFront.offset.toNat + (n + 2) - 1 - (b.mIdxFront.offset.toNat + 1) = n := by
    omega
  have hshift : List.range' (b.mIdxFront.offset.toNat + 1) n =
      (List.range' 1 n).map (b.mIdxFront.offset.toNat + ·) := (List.map_add_range' ..).symm
  rw [cells, piece, hn, hsize, hshift, List.range_succ, List.range_eq_range', List.range'_succ,
    List.map_map, List.map_map, List.map_append, List.map_cons, List.cons_append]
  congr 2
  exact List.map_congr_left hmiddle

/-- A piece that begins or ends one position further out. -/
theorem piece_cons {lo hi : Nat} (h : lo < hi) :
    b.piece lo hi = b.displayed.getD lo ' '.val :: b.piece (lo + 1) hi := by
  rw [piece, piece, show hi - lo = hi - (lo + 1) + 1 by omega, List.range'_succ, List.map_cons]

theorem piece_concat {lo hi : Nat} (h : lo ≤ hi) :
    b.piece lo (hi + 1) = b.piece lo hi ++ [b.displayed.getD hi ' '.val] := by
  rw [piece, piece, show hi + 1 - lo = hi - lo + 1 by omega, List.range'_1_concat, List.map_append,
    show lo + (hi - lo) = hi by omega, List.map_singleton]

/-- The first position that is shown, behind the mark if there is one. -/
def shownFrom (b : TextBox) : Nat :=
  if b.mIdxFront.offset = 0 then 0 else b.mIdxFront.offset.toNat + 1

/-- The position behind the last one that is shown. -/
def shownTo (b : TextBox) : Nat :=
  if b.mIdxFront.endReached then b.mIdxFront.offset.toNat + b.mIdxFront.win.toNat
  else b.mIdxFront.offset.toNat + b.mIdxFront.win.toNat - 1

theorem piece_left (hwin : 3 ≤ b.mIdxFront.win.toNat) {hi : Nat}
    (hhi : b.mIdxFront.offset.toNat < hi) :
    (b.cell 0).seen :: b.piece (b.mIdxFront.offset.toNat + 1) hi =
      markSeen (decide (0 < b.shownFrom)) '\u00AB' ++ b.piece b.shownFrom hi := by
  rw [cell_first hwin, shownFrom]
  by_cases h0 : b.mIdxFront.offset = 0
  · have hz : b.mIdxFront.offset.toNat = 0 := ListIdx.toNat_eq_zero.mp h0
    rw [hz] at hhi
    rw [if_pos h0, if_pos h0, hz, piece_cons hhi]
    rfl
  · rw [if_neg h0, if_neg h0, decide_eq_true (Nat.succ_pos _)]
    rfl

theorem piece_right (hwin : 3 ≤ b.mIdxFront.win.toNat) {n lo : Nat}
    (hend : b.mIdxFront.endReached = true ↔
      n + 1 ≤ b.mIdxFront.offset.toNat + b.mIdxFront.win.toNat)
    (hlo : lo < b.mIdxFront.offset.toNat + b.mIdxFront.win.toNat) :
    b.piece lo (b.mIdxFront.offset.toNat + b.mIdxFront.win.toNat - 1) ++
        [(b.cell (b.mIdxFront.win.toNat - 1)).seen] =
      b.piece lo b.shownTo ++ markSeen (decide (b.shownTo ≤ n)) '\u00BB' := by
  rw [cell_last hwin, shownTo]
  cases he : b.mIdxFront.endReached with
  | true =>
    have hle := hend.mp he
    have hsucc : b.mIdxFront.offset.toNat + b.mIdxFront.win.toNat =
        b.mIdxFront.offset.toNat + (b.mIdxFront.win.toNat - 1) + 1 := by omega
    rw [if_pos rfl, if_pos rfl, decide_eq_false (by omega), hsucc, Nat.add_sub_cancel,
      piece_concat (by omega)]
    exact (List.append_nil _).symm
  | false =>
    have hlt : ¬ n + 1 ≤ b.mIdxFront.offset.toNat + b.mIdxFront.win.toNat := fun hle =>
      Bool.false_ne_true (he.symm.trans (hend.mpr hle))
    rw [if_neg Bool.false_ne_true, if_neg Bool.false_ne_true, decide_eq_true (by omega)]
    rfl

/-- The window in terms of the text. -/
theorem cells_eq_piece (hwin : 3 ≤ b.mIdxFront.win.toNat) {n : Nat}
    (hend : b.mIdxFront.endReached = true ↔
      n + 1 ≤ b.mIdxFront.offset.toNat + b.mIdxFront.win.toNat) :
    b.cells.map Cell.seen = markSeen (decide (0 < b.shownFrom)) '\u00AB' ++
      b.piece b.shownFrom b.shownTo ++ markSeen (decide (b.shownTo ≤ n)) '\u00BB' := by
  have hfrom : b.shownFrom ≤ b.mIdxFront.offset.toNat + 1 := by
    unfold shownFrom
    split <;> omega
  rw [cells_seen hwin, ← List.cons_append, piece_left hwin (by omega), List.append_assoc,
    piece_right hwin hend (by omega), List.append_assoc]

/-- The cursor stands in the piece that is shown. -/
theorem CellInv.cursor_shown (h : b.CellInv) (hf : b.mFocus = true) :
    b.shownFrom ≤ b.mIdxFront.cursorAbs.toNat ∧ b.mIdxFront.cursorAbs.toNat < b.shownTo := by
  have hm := (h.indexes.focused hf).1
  obtain ⟨hfirst, hlast⟩ := hm.visible
  have hpos : b.mIdxFront.cursorAbs.toNat =
    b.mIdxFront.offset.toNat + b.mIdxFront.mCursor.toNat := hm.inv.cursorAbs_toNat
  have hcursor := h.cursor_lt_win hf
  constructor
  · unfold shownFrom
    split
    · exact Nat.zero_le _
    · next h0 =>
      have hpositive : b.mIdxFront.mCursor.toNat ≠ 0 := fun hc =>
        hfirst ⟨hc, fun hz => h0 (ListIdx.toNat_eq_zero.mpr hz)⟩
      omega
  · unfold shownTo
    split
    · omega
    · next he =>
      have hinside : b.mIdxFront.mCursor.toNat ≠ b.mIdxFront.win.toNat - 1 := fun hc =>
        hlast ⟨hc, Bool.eq_false_iff.mpr he⟩
      omega

/-- In every focused state of a run whose calls keep to `LayoutOk` and lead to displayable boxes,
`print` writes the frame, the padding and one piece of the text, or of its mask, that has the
cursor in it, with a mark on each side on which the text goes on. -/
theorem line_shown (h : b.DisplayRun) (hf : b.mFocus = true) {m : Modifiers}
    (hp : b.Printable m) : b.Writes m b.tokens ∧
    ∃ lo hi, lo ≤ b.mIdxFront.cursorAbs.toNat ∧ b.mIdxFront.cursorAbs.toNat < hi ∧
      b.line = b.frameSeen '>' '|' ++ b.paddingSeen ++
        (markSeen (decide (0 < lo)) '\u00AB' ++ b.piece lo hi ++
          markSeen (decide (hi ≤ b.mUstrWork.length)) '\u00BB') ++
        (b.paddingSeen ++ b.frameSeen '<' '|') := by
  have hc := h.cellInv
  have hsize := (hc.consistent.focused hf).1.size_eq
  have hend := (hc.indexes.focused hf).1.inv.endReached_iff
  rw [hsize] at hend
  obtain ⟨hlo, hhi⟩ := hc.cursor_shown hf
  refine ⟨hp.writes, b.shownFrom, b.shownTo, hlo, hhi, ?_⟩
  rw [line_eq, cells_eq_piece (hc.displayable.win hf) hend]

/-- A box of width 8 with the text `abcdef` and the cursor at `d`. -/
def twoMarks : TextBox :=
  ((((((new.apply (.widthSet 8)).apply (.currentSet (utf8Of "abcdef".toList))).apply
    (.focusSet true true)).apply (.keyProcess (.ofCtrl keyLeft))).apply
    (.keyProcess (.ofCtrl keyLeft))).apply (.keyProcess (.ofCtrl keyLeft)))

/-- The text goes on on both sides of `de`. -/
theorem line_shown_scrolled : twoMarks.line = "> \u00ABde\u00BB <".toList.map Char.val ∧
    twoMarks.Writes {} twoMarks.tokens ∧ ∃ lo hi, lo ≤ twoMarks.mIdxFront.cursorAbs.toNat ∧
      twoMarks.mIdxFront.cursorAbs.toNat < hi ∧
      twoMarks.line = twoMarks.frameSeen '>' '|' ++ twoMarks.paddingSeen ++
        (markSeen (decide (0 < lo)) '\u00AB' ++ twoMarks.piece lo hi ++
          markSeen (decide (hi ≤ twoMarks.mUstrWork.length)) '\u00BB') ++
        (twoMarks.paddingSeen ++ twoMarks.frameSeen '<' '|') := by
  have h₀ : Transition.Reachable (· = new) (Transition.guarded
      (fun b op => b.LayoutOk op ∧ (b.apply op).Displayable) (Transition.ofFun apply)) new :=
    .start rfl
  have h₁ := h₀.apply (Op.widthSet 8) ⟨by rw [new_eq]; rfl, by
    rw [new_eq]
    constructor <;> decide +kernel⟩
  have h₂ := h₁.apply (Op.currentSet (utf8Of "abcdef".toList)) ⟨trivial, by
    rw [new_eq]
    constructor <;> decide +kernel⟩
  have h₃ := h₂.apply (Op.focusSet true true) ⟨trivial, by
    rw [new_eq]
    constructor <;> decide +kernel⟩
  have h₄ := h₃.apply (Op.keyProcess (.ofCtrl keyLeft)) ⟨trivial, by
    rw [new_eq]
    constructor <;> decide +kernel⟩
  have h₅ := h₄.apply (Op.keyProcess (.ofCtrl keyLeft)) ⟨trivial, by
    rw [new_eq]
    constructor <;> decide +kernel⟩
  have h₆ := h₅.apply (Op.keyProcess (.ofCtrl keyLeft)) ⟨trivial, by
    rw [new_eq]
    constructor <;> decide +kernel⟩
  constructor
  · rw [twoMarks, new_eq]
    decide +kernel
  · have hfocus : twoMarks.mFocus = true := by
      rw [twoMarks, new_eq]
      decide +kernel
    have hshown : twoMarks.shown = "abcdef".toList.map Char.val := by
      rw [twoMarks, new_eq]
      decide +kernel
    refine line_shown (b := twoMarks) h₆ hfocus ?_
    refine printable_of_encodable (by constructor <;> decide +kernel) ?_
    rw [hshown]
    exact encodable_map_val _

end TextBox
end ProcessingCommon
