import ProcessingCommon.TextBox.Agreement
import ProcessingCommon.TextBox.Tokens

/-!
# The highlighting of the selection

The selection modifier is switched on at the lower cursor and off at the higher one. In front of
the first cell it is on if the view begins behind the lower cursor, also where it begins at the
higher one or behind it. The first cell is an overflow mark then, so nothing switches it off.
-/

namespace ProcessingCommon
namespace TextBox

/-! ## The state of the highlighting -/

/-- The selection modifier and the reset switch the highlighting, whatever the other modifiers
are. -/
def highlightStep (on : Bool) : Token → Bool
  | .modifierSelection => true
  | .reset => false
  | _ => on

/-- The selection modifier is the latest of the two. -/
def highlighted (on : Bool) (ts : List Token) : Bool := ts.foldl highlightStep on

/-- Exactly the selected positions of the text are written with the highlighting on. -/
def HighlightExact (b : TextBox) : Prop :=
  ∀ pre post idxAbs ch, b.tokens = pre ++ Token.text idxAbs ch :: post →
    (highlighted false pre = true ↔
      b.listIdxLow.cursorAbs.toNat ≤ idxAbs ∧ idxAbs < b.listIdxHigh.cursorAbs.toNat)

/-- Nothing is selected, or the view begins in front of the end of the selection, or it has no
cell between its overflow marks. -/
def HighlightOk (b : TextBox) : Prop :=
  b.listIdxLow.cursorAbs = b.listIdxHigh.cursorAbs ∨
    b.mIdxFront.offset.toNat < b.listIdxHigh.cursorAbs.toNat ∨
    b.mIdxFront.win.toNat ≤ 1 ∨ b.mIdxFront.win.toNat = 2 ∧ b.mIdxFront.endReached = false

variable {b : TextBox} {on : Bool} {ts ts' : List Token} {idxAbs : Nat}

/-- The position is selected. -/
def isSelected (b : TextBox) (idxAbs : Nat) : Bool :=
  decide (b.listIdxLow.cursorAbs.toNat ≤ idxAbs ∧ idxAbs < b.listIdxHigh.cursorAbs.toNat)

/-- The same for a part of the output, with the highlighting in front of it. -/
def ExactFrom (b : TextBox) (on : Bool) : List Token → Prop
  | [] => True
  | .text idxAbs _ :: ts => on = b.isSelected idxAbs ∧ b.ExactFrom on ts
  | t :: ts => b.ExactFrom (highlightStep on t) ts

theorem exactFrom_iff : b.ExactFrom on ts ↔ ∀ pre post idxAbs ch,
    ts = pre ++ Token.text idxAbs ch :: post → highlighted on pre = b.isSelected idxAbs := by
  induction ts generalizing on with
  | nil => exact ⟨fun _ pre post i ch h => by simp at h, fun _ => trivial⟩
  | cons t ts ih =>
    have hrest : (∀ pre post i ch, t :: ts = pre ++ Token.text i ch :: post →
          highlighted on pre = b.isSelected i) ↔
        (∀ i ch, t = .text i ch → on = b.isSelected i) ∧
          ∀ pre post i ch, ts = pre ++ Token.text i ch :: post →
            highlighted (highlightStep on t) pre = b.isSelected i := by
      constructor
      · intro h
        refine ⟨fun i ch ht => h [] ts i ch (by rw [ht]; rfl), fun pre post i ch hts => ?_⟩
        exact h (t :: pre) post i ch (by rw [hts]; rfl)
      · rintro ⟨hhead, htail⟩ pre post i ch hts
        cases pre with
        | nil =>
          rw [List.nil_append, List.cons.injEq] at hts
          exact hhead i ch hts.1
        | cons t' pre =>
          rw [List.cons_append, List.cons.injEq] at hts
          obtain ⟨rfl, hts⟩ := hts
          exact htail pre post i ch hts
    rw [hrest, ← ih]
    cases t with
    | text i ch =>
      exact and_congr_left' ⟨fun h i' ch' ht => by cases ht; exact h, fun h => h i ch rfl⟩
    | _ => exact ⟨fun h => ⟨fun i ch ht => (by cases ht), h⟩, fun h => h.2⟩

theorem highlightExact_iff : b.HighlightExact ↔ b.ExactFrom false b.tokens := by
  rw [exactFrom_iff, HighlightExact]
  refine forall_congr' fun pre => forall_congr' fun post => forall_congr' fun i =>
    forall_congr' fun ch => imp_congr_right fun _ => ?_
  unfold isSelected
  cases highlighted false pre with
  | true => simp
  | false => simp

theorem highlighted_append : highlighted on (ts ++ ts') = highlighted (highlighted on ts) ts' :=
  List.foldl_append

theorem exactFrom_append :
    b.ExactFrom on (ts ++ ts') ↔ b.ExactFrom on ts ∧ b.ExactFrom (highlighted on ts) ts' := by
  induction ts generalizing on with
  | nil => exact (iff_of_eq (true_and _)).symm
  | cons t ts ih =>
    cases t with
    | text i ch =>
      exact (and_congr_right fun _ => ih).trans and_assoc.symm
    | _ => exact ih

/-- Without text nothing is to be shown. -/
theorem exactFrom_of_noText (h : ∀ i ch, Token.text i ch ∉ ts) : b.ExactFrom on ts := by
  rw [exactFrom_iff]
  intro pre post i ch hts
  exact absurd (hts ▸ List.mem_append_right _ List.mem_cons_self) (h i ch)

/-! ## One cell -/

/-- Highlighting in front of a position where it may be switched. -/
def Ready (b : TextBox) (on : Bool) (idxAbs : Nat) : Prop :=
  idxAbs ≠ b.listIdxLow.cursorAbs.toNat → idxAbs ≠ b.listIdxHigh.cursorAbs.toNat →
    on = b.isSelected idxAbs

theorem selectionPrint_iff (hf : b.mFocus = true) :
    b.selectionPrint = true ↔ b.listIdxLow.cursorAbs ≠ b.listIdxHigh.cursorAbs := by
  rw [selectionPrint, hf, Bool.true_and, bne_iff_ne]

theorem low_lt_high (hs : b.selectionPrint = true) :
    b.listIdxLow.cursorAbs.toNat < b.listIdxHigh.cursorAbs.toNat := by
  rw [selectionPrint, Bool.and_eq_true, bne_iff_ne, ne_eq, ← UInt32.toNat_inj] at hs
  exact Nat.lt_of_le_of_ne (listIdxLow_le_high b) hs.2

/-- A cursor is one of the two ends of the selection. -/
theorem cursor_isEnd (b : TextBox) : b.mIdxFront.cursorAbs = b.listIdxLow.cursorAbs ∨
    b.mIdxFront.cursorAbs = b.listIdxHigh.cursorAbs := by
  unfold listIdxLow listIdxHigh
  split
  · exact .inr rfl
  · exact .inl rfl

theorem highlighted_switches (hs : b.selectionPrint = true) (h : b.Ready on idxAbs) :
    highlighted on (b.switches idxAbs) = b.isSelected idxAbs := by
  have hlt := low_lt_high hs
  unfold switches isSelected
  rw [hs, Bool.true_and, Bool.true_and]
  by_cases hlow : idxAbs = b.listIdxLow.cursorAbs.toNat
  · have hhigh : idxAbs ≠ b.listIdxHigh.cursorAbs.toNat := by omega
    rw [if_pos (beq_iff_eq.mpr hlow), if_neg (by simpa using hhigh)]
    exact (decide_eq_true ⟨by omega, by omega⟩).symm
  · by_cases hhigh : idxAbs = b.listIdxHigh.cursorAbs.toNat
    · rw [if_neg (by simpa using hlow), if_pos (beq_iff_eq.mpr hhigh)]
      exact (decide_eq_false (by omega)).symm
    · rw [if_neg (by simpa using hlow), if_neg (by simpa using hhigh)]
      exact h hlow hhigh

theorem switches_noText (i : Nat) (ch : Char32) : Token.text i ch ∉ b.switches idxAbs := by
  unfold switches
  rw [List.mem_append, not_or]
  constructor <;> split <;> simp

/-- What is written in a cell of the text, and the highlighting behind it. -/
theorem exactFrom_textCell (hs : b.selectionPrint = true) (h : b.Ready on idxAbs) (ch : Char32)
    {underlined : Bool} (hu : underlined = b.cursorPrint idxAbs) :
    b.ExactFrom on (b.cellTokens (.text idxAbs ch underlined)) ∧
      highlighted on (b.cellTokens (.text idxAbs ch underlined)) = b.isSelected idxAbs := by
  have hlt := low_lt_high hs
  have hsw := highlighted_switches hs h
  unfold cellTokens
  dsimp only
  rw [exactFrom_append, highlighted_append, hsw]
  refine ⟨⟨exactFrom_of_noText switches_noText, ?_⟩, ?_⟩
  · split
    · refine ⟨rfl, exactFrom_of_noText fun i ch hmem => ?_⟩
      unfold modifier at hmem
      split at hmem <;> simp at hmem
    · exact ⟨rfl, trivial⟩
  · split
    · next hcur =>
      -- behind the cursor the highlighting is restored by its position alone
      rw [hu, cursorPrint, Bool.and_eq_true, beq_iff_eq] at hcur
      have hle : b.listIdxLow.cursorAbs.toNat ≤ idxAbs := by
        rcases b.cursor_isEnd with he | he
        · rw [hcur.2, he]
        · rw [hcur.2, he]
          omega
      unfold isSelected
      rw [hs, Bool.true_and]
      cases hi : decide (idxAbs < b.listIdxHigh.cursorAbs.toNat) with
      | true => exact (decide_eq_true ⟨hle, of_decide_eq_true hi⟩).symm
      | false => exact (decide_eq_false fun h => of_decide_eq_false hi h.2).symm
    · rfl

theorem Ready.next (hs : b.selectionPrint = true) :
    b.Ready (b.isSelected idxAbs) (idxAbs + 1) := by
  have hlt := low_lt_high hs
  intro hlow hhigh
  unfold isSelected
  rw [decide_eq_decide]
  omega

/-! ## The window -/

/-- The cells from `idxRel` on. -/
def cellsFrom (b : TextBox) (idxRel n : Nat) : List Token :=
  ((List.range' idxRel n).map b.cell).flatMap b.cellTokens

theorem cellsFrom_succ (idxRel n : Nat) :
    b.cellsFrom idxRel (n + 1) = b.cellTokens (b.cell idxRel) ++ b.cellsFrom (idxRel + 1) n := by
  rw [cellsFrom, List.range'_succ, List.map_cons, List.flatMap_cons]
  rfl

/-- Behind the first cell of a scrolled view there is one more mark at most, in the last cell. -/
theorem cell_eq {idxRel : Nat} (hfirst : idxRel = 0 → b.mIdxFront.offset = 0) :
    b.cell idxRel = (if idxRel = b.mIdxFront.win.toNat - 1 ∧ !b.mIdxFront.endReached
      then .mark '\u00BB'
      else .text (b.mIdxFront.offset.toNat + idxRel)
        (b.shownChar (b.mIdxFront.offset.toNat + idxRel))
        (b.cursorPrint (b.mIdxFront.offset.toNat + idxRel))) := by
  unfold cell
  exact if_neg fun h => h.2 (hfirst h.1)

theorem exactFrom_cells (hs : b.selectionPrint = true) {idxRel n : Nat}
    (hn : idxRel + n = b.mIdxFront.win.toNat) (hfirst : idxRel = 0 → b.mIdxFront.offset = 0)
    (h : b.Ready on (b.mIdxFront.offset.toNat + idxRel)) :
    b.ExactFrom on (b.cellsFrom idxRel n) := by
  induction n generalizing idxRel on with
  | zero => trivial
  | succ n ih =>
    rw [cellsFrom_succ, exactFrom_append, cell_eq hfirst]
    split
    · next hlast =>
      -- the mark at the right is the last cell
      have hzero : n = 0 := by omega
      subst hzero
      exact ⟨trivial, trivial⟩
    · have hcell := exactFrom_textCell hs h
        (b.shownChar (b.mIdxFront.offset.toNat + idxRel)) rfl
      refine ⟨hcell.1, ih (by omega) (fun h0 => absurd h0 (by omega)) ?_⟩
      rw [hcell.2]
      exact Ready.next hs

/-! ## Around the window -/

theorem frameTokens_noText (foc noFoc : Char) (i : Nat) (ch : Char32) :
    Token.text i ch ∉ b.frameTokens foc noFoc ∧ Token.text i ch ∉ b.paddingTokens := by
  unfold frameTokens paddingTokens
  constructor <;> split <;> simp

theorem headTokens_noText (i : Nat) (ch : Char32) : Token.text i ch ∉ b.headTokens := by
  unfold headTokens modifier
  simp only [List.mem_cons, List.mem_append, not_or]
  refine ⟨by simp, frameTokens_noText _ _ _ _, by simp, ?_, by simp⟩
  split <;> simp

theorem tailTokens_noText (i : Nat) (ch : Char32) : Token.text i ch ∉ b.tailTokens := by
  have hborder := b.frameTokens_noText '<' '|' i ch
  unfold tailTokens
  simp only [List.mem_append, not_or]
  exact ⟨⟨⟨by simp, hborder.2⟩, hborder.1⟩, by simp⟩

/-- In front of the first cell the highlighting depends on the start of the view alone. -/
theorem highlighted_headTokens : highlighted false b.headTokens = (b.selectionPrint &&
    decide (b.mIdxFront.offset.toNat ≥ b.listIdxLow.cursorAbs.toNat)) := by
  have hmodifier : ∀ on isSelection, highlighted on [.reset, modifier isSelection] = isSelection := by
    intro on isSelection
    cases isSelection <;> rfl
  unfold headTokens
  rw [← List.cons_append, highlighted_append, hmodifier]

theorem cells_eq : b.cells.flatMap b.cellTokens = b.cellsFrom 0 b.mIdxFront.win.toNat := by
  rw [cells, cellsFrom, List.range_eq_range']

/-- Only the cells matter, with the highlighting in front of them. -/
theorem highlightExact_iff_cells : b.HighlightExact ↔ b.ExactFrom (b.selectionPrint &&
    decide (b.mIdxFront.offset.toNat ≥ b.listIdxLow.cursorAbs.toNat))
      (b.cellsFrom 0 b.mIdxFront.win.toNat) := by
  rw [highlightExact_iff, tokens, exactFrom_append, exactFrom_append, highlighted_headTokens,
    cells_eq]
  exact ⟨fun h => h.1.2, fun h =>
    ⟨⟨exactFrom_of_noText headTokens_noText, h⟩, exactFrom_of_noText tailTokens_noText⟩⟩

/-! ## Without selection -/

theorem highlighted_unselected (h : Token.modifierSelection ∉ ts) : highlighted false ts = false := by
  induction ts with
  | nil => rfl
  | cons t ts ih =>
    rw [List.mem_cons, not_or] at h
    have hstep : highlightStep false t = false := by
      cases t with
      | modifierSelection => exact absurd rfl h.1
      | _ => rfl
    rw [highlighted, List.foldl_cons, hstep]
    exact ih h.2

theorem modifierSelection_not_mem (hs : b.selectionPrint = false) (c : Cell) :
    Token.modifierSelection ∉ b.cellTokens c := by
  cases c with
  | mark ch => simp [cellTokens]
  | text idxAbs ch underlined =>
    unfold cellTokens switches modifier
    rw [hs]
    cases underlined <;> simp

theorem exactFrom_unselected (hf : b.mFocus = true) (hs : b.selectionPrint = false)
    (idxRel n : Nat) : b.ExactFrom false (b.cellsFrom idxRel n) := by
  have hequal : b.listIdxLow.cursorAbs = b.listIdxHigh.cursorAbs := by
    by_contra hne
    rw [(selectionPrint_iff hf).mpr hne] at hs
    cases hs
  have hnone : Token.modifierSelection ∉ b.cellsFrom idxRel n := by
    intro h
    obtain ⟨c, -, hc⟩ := List.mem_flatMap.mp h
    exact modifierSelection_not_mem hs c hc
  rw [exactFrom_iff]
  intro pre post i ch hts
  rw [highlighted_unselected fun h => hnone (hts ▸ List.mem_append_left _ h), isSelected, hequal]
  exact (decide_eq_false (by omega)).symm

/-! ## The condition -/

/-- Behind the selection nothing switches the highlighting off. -/
theorem not_exactFrom_textCell {ch : Char32} {underlined : Bool}
    (h : b.listIdxHigh.cursorAbs.toNat < idxAbs) :
    ¬ b.ExactFrom true (b.cellTokens (.text idxAbs ch underlined)) := by
  have hle := listIdxLow_le_high b
  have hlow : (idxAbs == b.listIdxLow.cursorAbs.toNat) = false := beq_false_of_ne (by omega)
  have hhigh : (idxAbs == b.listIdxHigh.cursorAbs.toNat) = false := beq_false_of_ne (by omega)
  have hselected : b.isSelected idxAbs = false := decide_eq_false (by omega)
  unfold cellTokens switches
  dsimp only
  rw [hlow, hhigh, Bool.and_false]
  intro he
  cases underlined with
  | false => exact absurd (he.1.trans hselected) (by decide)
  | true => exact absurd (he.1.trans hselected) (by decide)

/-- A scrolled view begins with a mark; the state in front of it stays. -/
theorem highlightExact_iff_scrolled (ho : b.mIdxFront.offset ≠ 0) {n : Nat}
    (hn : b.mIdxFront.win.toNat = n + 1) : b.HighlightExact ↔ b.ExactFrom (b.selectionPrint &&
      decide (b.mIdxFront.offset.toNat ≥ b.listIdxLow.cursorAbs.toNat)) (b.cellsFrom 1 n) := by
  have hmark : b.cell 0 = .mark '\u00AB' := by
    unfold cell
    exact if_pos ⟨rfl, ho⟩
  rw [highlightExact_iff_cells, hn, cellsFrom_succ, hmark]
  exact Iff.rfl

/-- The view begins at the end of the selection or behind it: a cell of the text is wrong. -/
theorem highlightExact_iff_behind (hs : b.selectionPrint = true)
    (hh : b.listIdxHigh.cursorAbs.toNat ≤ b.mIdxFront.offset.toNat) {n : Nat}
    (hn : b.mIdxFront.win.toNat = n + 1) :
    b.HighlightExact ↔ n = 0 ∨ n = 1 ∧ b.mIdxFront.endReached = false := by
  have hlt := low_lt_high hs
  have ho : b.mIdxFront.offset ≠ 0 := by
    intro h0
    rw [h0, UInt32.toNat_zero] at hh
    omega
  rw [highlightExact_iff_scrolled ho hn, hs, decide_eq_true (by omega)]
  cases n with
  | zero => exact iff_of_true trivial (.inl rfl)
  | succ n =>
    rw [cellsFrom_succ, exactFrom_append, cell_eq fun h => absurd h (by decide)]
    split
    · next hlast =>
      have hzero : n = 0 := by omega
      subst hzero
      exact iff_of_true ⟨trivial, trivial⟩ (.inr ⟨rfl, by simpa using hlast.2⟩)
    · next hlast =>
      refine iff_of_false (fun h => not_exactFrom_textCell (by omega) h.1) ?_
      rintro (h | ⟨h, he⟩)
      · omega
      · exact hlast ⟨by omega, by rw [he]; rfl⟩

theorem highlightExact_iff_ok (hf : b.mFocus = true) : b.HighlightExact ↔ b.HighlightOk := by
  cases hs : b.selectionPrint with
  | false =>
    have hequal : b.listIdxLow.cursorAbs = b.listIdxHigh.cursorAbs := by
      by_contra hne
      rw [(selectionPrint_iff hf).mpr hne] at hs
      cases hs
    refine iff_of_true (highlightExact_iff_cells.mpr ?_) (.inl hequal)
    rw [hs]
    exact exactFrom_unselected hf hs _ _
  | true =>
    have hlt := low_lt_high hs
    have hne := (selectionPrint_iff hf).mp hs
    unfold HighlightOk
    cases hw : b.mIdxFront.win.toNat with
    | zero =>
      refine iff_of_true (highlightExact_iff_cells.mpr ?_) (.inr (.inr (.inl (by omega))))
      rw [hw]
      trivial
    | succ n =>
      by_cases hh : b.mIdxFront.offset.toNat < b.listIdxHigh.cursorAbs.toNat
      · refine iff_of_true ?_ (.inr (.inl hh))
        by_cases ho : b.mIdxFront.offset = 0
        · -- the view begins with the text
          rw [highlightExact_iff_cells]
          refine exactFrom_cells hs (by omega) (fun _ => ho) fun hl hh' => ?_
          rw [hs, Bool.true_and, isSelected, decide_eq_decide]
          omega
        · rw [highlightExact_iff_scrolled ho hw]
          refine exactFrom_cells hs (by omega) (fun h => absurd h (by decide)) fun hl hh' => ?_
          rw [hs, Bool.true_and, isSelected, decide_eq_decide]
          omega
      · rw [highlightExact_iff_behind hs (by omega) hw]
        constructor
        · rintro (h | ⟨h, he⟩)
          · exact .inr (.inr (.inl (by omega)))
          · exact .inr (.inr (.inr ⟨by omega, he⟩))
        · rintro (h | h | h | ⟨h, he⟩)
          · exact absurd h hne
          · exact absurd h hh
          · exact .inl (by omega)
          · exact .inr ⟨by omega, he⟩

/-- In every focused state of every run the highlighting is exact if and only if nothing is
selected, the view begins in front of the end of the selection, or no cell of the text is shown. -/
theorem highlight_exact (ops : List Op) (hf : (new.run ops).mFocus = true) :
    (new.run ops).HighlightExact ↔ (new.run ops).HighlightOk :=
  highlightExact_iff_ok hf

instance (b : TextBox) : Decidable b.HighlightOk := inferInstanceAs (Decidable (_ ∨ _))

/-- The `b` of `abc` is selected. -/
theorem highlight_exact_selected :
    (new.run [.focusSet true false, .ustrWorkSet [97, 98, 99], .selectionSet 1 1]).HighlightExact :=
  (highlight_exact [.focusSet true false, .ustrWorkSet [97, 98, 99], .selectionSet 1 1]
    (by rw [new_eq]; decide)).mpr (by rw [new_eq]; decide)

/-- Twenty characters in a window of ten whose cursor is bound to its first column: after a step
to the right with Shift, everything behind the one selected character is highlighted. -/
theorem highlight_exact_fails :
    (new.run [.focusSet true false, .ustrWorkSet (List.replicate 20 97), .cursorBoundSet 9,
        .keyProcess (.ofCtrl keyHome),
        .keyProcess { mCtrl := keyRight, mIsCtrl := true, mModShift := true }]).mFocus = true ∧
      ¬ (new.run [.focusSet true false, .ustrWorkSet (List.replicate 20 97), .cursorBoundSet 9,
        .keyProcess (.ofCtrl keyHome),
        .keyProcess { mCtrl := keyRight, mIsCtrl := true, mModShift := true }]).HighlightExact := by
  have hf : (new.run [.focusSet true false, .ustrWorkSet (List.replicate 20 97),
      .cursorBoundSet 9, .keyProcess (.ofCtrl keyHome),
      .keyProcess { mCtrl := keyRight, mIsCtrl := true, mModShift := true }]).mFocus = true := by
    rw [new_eq]
    decide
  refine ⟨hf, ?_⟩
  rw [highlightExact_iff_ok hf, new_eq]
  decide

end TextBox
end ProcessingCommon
