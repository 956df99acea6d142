import ProcessingCommon.ListIdxCursor
import ProcessingCommon.TextBox.Agreement

/-!
# Editing does not depend on the view

Two boxes that differ in width, frame, padding and cursor bounds have indexes with
different windows, offsets and relative cursors. As long as both show the same
`ListCursor`, every operation treats them alike, so the two runs stay related.

The relation is lost in two ways, and in no other:

* an empty window (width 4 with frame and padding), in which the cursor is stuck;
* a resize that `ListIdx.Overshoots` describes: the list becomes shorter than the
  window of a scrolled view, and `sanityCheck` moves the cursor forward.
-/

namespace ProcessingCommon

/-- Two results that are chosen by one test are related if those of both branches are. -/
theorem rel_ite {α β : Type} {P : α → β → Prop} {test : Prop} [Decidable test] {a c : α} {b d : β}
    (hthen : P a b) (helse : P c d) : P (if test then a else c) (if test then b else d) := by
  split
  · exact hthen
  · exact helse

/-! ## Two indexes with one cursor -/

namespace ListIdx

/-- Two indexes show the same cursor, each through its own window. -/
structure SameCursor (x x' : ListIdx) : Prop where
  cursor : ∃ c, x.Refines c ∧ x'.Refines c
  sizeJump : x'.mSizeJump = x.mSizeJump

/-- Two moves with the same outcome. -/
def SameMove (r r' : ListIdx × Bool) : Prop := SameCursor r.1 r'.1 ∧ r'.2 = r.2

/-- A resize that keeps the cursor on its item: no overshoot, no wrap. -/
def ResizeOk (x : ListIdx) (size : UInt32) : Prop :=
  ¬ x.Overshoots size ∧ x.mSize.toNat + x.mWin.toNat ≤ 2 ^ 32 + size.toNat

variable {x x' : ListIdx}

theorem SameCursor.cursorAbs (h : SameCursor x x') : x'.cursorAbs = x.cursorAbs := by
  obtain ⟨c, hc, hc'⟩ := h.cursor
  rw [← UInt32.toNat_inj, hc.pos_eq, hc'.pos_eq]

theorem SameCursor.mSize (h : SameCursor x x') : x'.mSize = x.mSize := by
  obtain ⟨c, hc, hc'⟩ := h.cursor
  rw [← UInt32.toNat_inj, hc.size_eq, hc'.size_eq]

/-- A spec lemma for a move, used on both sides. -/
theorem SameCursor.move (h : SameCursor x x') {f : ListIdx → ListIdx × Bool}
    {g : ListCursor → ListCursor} {m : ListCursor → Bool}
    (hf : ∀ {x c}, Refines x c → (f x).1.Refines (g c) ∧ (f x).2 = m c)
    (hs : ∀ x, SameList x (f x).1) : SameMove (f x) (f x') := by
  obtain ⟨c, hc, hc'⟩ := h.cursor
  refine ⟨⟨⟨g c, (hf hc).1, (hf hc').1⟩, ?_⟩, ?_⟩
  · rw [(hs x).sizeJump, (hs x').sizeJump, h.sizeJump]
  · rw [(hf hc).2, (hf hc').2]

theorem SameCursor.reset (h : SameCursor x x') : SameMove x.reset x'.reset :=
  h.move reset_refines reset_same

theorem SameCursor.cursorEndSet (h : SameCursor x x') : SameMove x.cursorEndSet x'.cursorEndSet :=
  h.move cursorEndSet_refines cursorEndSet_same

theorem SameCursor.inc (h : SameCursor x x') : SameMove x.inc x'.inc :=
  h.move inc_refines inc_same

theorem SameCursor.dec (h : SameCursor x x') : SameMove x.dec x'.dec :=
  h.move dec_refines dec_same

theorem SameCursor.incJump (h : SameCursor x x') : SameMove x.incJump x'.incJump := by
  rw [ListIdx.incJump, ListIdx.incJump, h.sizeJump]
  exact h.move (f := fun x => jumpLoop ListIdx.inc _ (x, false)) (jumpLoop_inc_refines _ false)
    fun x => jumpLoop_same inc_same _ x false

theorem SameCursor.decJump (h : SameCursor x x') : SameMove x.decJump x'.decJump := by
  rw [ListIdx.decJump, ListIdx.decJump, h.sizeJump]
  exact h.move (f := fun x => jumpLoop ListIdx.dec _ (x, false)) (jumpLoop_dec_refines _ false)
    fun x => jumpLoop_same dec_same _ x false

theorem SameCursor.keyProcess (h : SameCursor x x') (key : KeyUser) (dis : List Char32) :
    SameMove (x.keyProcess key dis) (x'.keyProcess key dis) := by
  unfold ListIdx.keyProcess
  extract_lets keyCmp keyCmp' disabled
  refine rel_ite h.inc (rel_ite h.dec (rel_ite h.incJump (rel_ite h.decJump
    (rel_ite h.reset (rel_ite h.cursorEndSet ?_)))))
  exact ⟨h, rfl⟩

theorem SameCursor.iterate_inc (h : SameCursor x x') (n : Nat) :
    SameCursor ((fun x => x.inc.1)^[n] x) ((fun x => x.inc.1)^[n] x') := by
  induction n generalizing x x' with
  | zero => exact h
  | succ n ih => exact ih h.inc.1

/-! ### Resizes -/

theorem SameCursor.sizeSet (h : SameCursor x x') {size : UInt32} (hr : x.ResizeOk size)
    (hr' : x'.ResizeOk size) : SameCursor (x.sizeSet size) (x'.sizeSet size) := by
  obtain ⟨c, hc, hc'⟩ := h.cursor
  have hs := hc.size_eq
  have hs' := hc'.size_eq
  refine ⟨⟨c.resize size.toNat, sizeSet_refines hc hr.1 ?_, sizeSet_refines hc' hr'.1 ?_⟩, ?_⟩
  · rw [← hs]
    exact hr.2
  · rw [← hs']
    exact hr'.2
  · rw [(sizeSet_same x size).sizeJump, (sizeSet_same x' size).sizeJump, h.sizeJump]

/-- A resize needs no condition when a move follows that does not depend on the position. -/
theorem SameCursor.sizeSet_move (h : SameCursor x x') (size : UInt32)
    {f : ListIdx → ListIdx × Bool} {g : ListCursor → ListCursor}
    (hf : ∀ {x c}, Refines x c → (f x).1.Refines (g c)) (hs : ∀ x, SameList x (f x).1)
    (hg : ∀ d d' : ListCursor, d.size = d'.size → g d = g d') :
    SameCursor (f (x.sizeSet size)).1 (f (x'.sizeSet size)).1 := by
  obtain ⟨c, hc, hc'⟩ := h.cursor
  obtain ⟨d, hd, hx⟩ := (sizeSet_repInv hc.inv size).refines
    (by rw [sizeSet_mWin]; exact hc.win_pos)
  obtain ⟨d', hd', hx'⟩ := (sizeSet_repInv hc'.inv size).refines
    (by rw [sizeSet_mWin]; exact hc'.win_pos)
  rw [sizeSet_mSize] at hd hd'
  refine ⟨⟨g d, hf hx, hg d' d (hd'.trans hd.symm) ▸ hf hx'⟩, ?_⟩
  rw [(hs _).sizeJump, (hs _).sizeJump, (sizeSet_same x size).sizeJump,
    (sizeSet_same x' size).sizeJump, h.sizeJump]

theorem SameCursor.sizeSet_cursorEndSet (h : SameCursor x x') (size : UInt32) :
    SameCursor (x.sizeSet size).cursorEndSet.1 (x'.sizeSet size).cursorEndSet.1 :=
  h.sizeSet_move size (fun hx => (cursorEndSet_refines hx).1) cursorEndSet_same fun d d' hd => by
    ext
    · exact hd
    · simp only [ListCursor.last_pos, hd]

theorem SameCursor.sizeSet_reset (h : SameCursor x x') (size : UInt32) :
    SameCursor (x.sizeSet size).reset.1 (x'.sizeSet size).reset.1 :=
  h.sizeSet_move size (fun hx => (reset_refines hx).1) reset_same fun d d' hd => by
    ext
    · exact hd
    · rfl

theorem SameCursor.insert (h : SameCursor x x') : SameCursor x.insert x'.insert := by
  obtain ⟨c, hc, hc'⟩ := h.cursor
  exact ⟨⟨_, insert_refines hc, insert_refines hc'⟩, by
    rw [insert_sizeJump, insert_sizeJump, h.sizeJump]⟩

theorem SameCursor.iterate_insert (h : SameCursor x x') (n : Nat) :
    SameCursor (ListIdx.insert^[n] x) (ListIdx.insert^[n] x') := by
  induction n generalizing x x' with
  | zero => exact h
  | succ n ih => exact ih h.insert

theorem SameCursor.currErase (h : SameCursor x x') : SameMove x.currErase x'.currErase := by
  obtain ⟨c, hc, hc'⟩ := h.cursor
  have hx := currErase_refines hc
  have hx' := currErase_refines hc'
  exact ⟨⟨⟨_, hx.1, hx'.1⟩, by rw [currErase_sizeJump, currErase_sizeJump, h.sizeJump]⟩,
    hx'.2.trans hx.2.symm⟩

theorem SameCursor.prevErase (h : SameCursor x x') : SameMove x.prevErase x'.prevErase := by
  obtain ⟨c, hc, hc'⟩ := h.cursor
  have hx := prevErase_refines hc
  have hx' := prevErase_refines hc'
  exact ⟨⟨⟨_, hx.1, hx'.1⟩, by rw [prevErase_sizeJump, prevErase_sizeJump, h.sizeJump]⟩,
    hx'.2.trans hx.2.symm⟩

end ListIdx

namespace TextBox

open ListIdx (SameCursor SameMove ResizeOk)

/-! ## Two boxes with one text -/

/-- Two boxes that differ in the view only. -/
inductive SameText : TextBox → TextBox → Prop
  | mk (b : TextBox) (mWidth : UInt16) (mFrameEnabled mPaddingEnabled : Bool)
      (mIdxFront mIdxBack : ListIdx) :
      SameCursor b.mIdxFront mIdxFront → SameCursor b.mIdxBack mIdxBack →
      SameText b { b with mWidth, mFrameEnabled, mPaddingEnabled, mIdxFront, mIdxBack }

/-- Two calls with the same outcome. -/
def SameResult {α : Type} (r r' : Result α) : Prop := SameText r.1 r'.1 ∧ r'.2 = r.2

variable {b b' : TextBox}

theorem SameText.result {α : Type} (h : SameText b b') (a : Except Exn α) :
    SameResult (b, a) (b', a) := ⟨h, rfl⟩

/-- The calls that change the view. -/
def Op.isView : Op → Bool
  | .widthSet _ | .frameEnabledSet _ | .paddingEnabledSet _ | .cursorBoundSet _ => true
  | _ => false

/-! ### The condition on a call -/

/-- The text around the selection. -/
def remaining (b : TextBox) : U32String :=
  b.mUstrWork.take b.listIdxLow.cursorAbs.toNat ++
    b.mUstrWork.drop (b.listIdxLow.cursorAbs.toNat + b.selectionLen)

/-- The selection can be cut out without moving the cursor. -/
def ClearOk (b : TextBox) : Prop := b.listIdxLow.ResizeOk (sizeToU32 (b.remaining.length + 1))

/-- The indexes of the unfocused box take the new text without moving the cursors. -/
def CurrentOk (b : TextBox) (str : StdString) : Prop :=
  ∀ ustr, strToUtf str = some ustr →
    b.mIdxFront.ResizeOk (sizeToU32 (ustr.length + 1)) ∧
      b.mIdxBack.ResizeOk (sizeToU32 (ustr.length + 1))

/-- The condition on the state before a call and its arguments. -/
def ResizesOk (b : TextBox) : Op → Prop
  | .currentSet str => b.mFocus = false → b.CurrentOk str
  | .paste str => if b.mFocus then b.ClearOk else b.CurrentOk str
  | .keyProcess key => b.Replaces key → b.ClearOk
  | _ => True

/-! ### The selection -/

theorem SameText.low (h : SameText b b') : SameCursor b.listIdxLow b'.listIdxLow := by
  cases h with
  | mk _ _ _ _ _ hf hb =>
    simp only [listIdxLow, hf.cursorAbs, hb.cursorAbs]
    split
    · exact hb
    · exact hf

theorem SameText.high (h : SameText b b') : SameCursor b.listIdxHigh b'.listIdxHigh := by
  cases h with
  | mk _ _ _ _ _ hf hb =>
    simp only [listIdxHigh, hf.cursorAbs, hb.cursorAbs]
    split
    · exact hf
    · exact hb

theorem SameText.selectionLen (h : SameText b b') : b'.selectionLen = b.selectionLen := by
  rw [TextBox.selectionLen, TextBox.selectionLen, h.high.cursorAbs, h.low.cursorAbs]

theorem SameText.work (h : SameText b b') : b'.mUstrWork = b.mUstrWork := by
  cases h
  rfl

theorem SameText.focus (h : SameText b b') : b'.mFocus = b.mFocus := by
  cases h
  rfl

theorem SameText.isSelection (h : SameText b b') : b'.isSelection = b.isSelection := by
  cases h with
  | mk _ _ _ _ _ hf hb => simp only [TextBox.isSelection, hf.cursorAbs, hb.cursorAbs]

/-- The front index goes on as both cursors, with a new text. -/
theorem SameText.replaced (h : SameText b b') (work : U32String) {x x' : ListIdx}
    (hx : SameCursor x x') :
    SameText { b with mUstrWork := work, mIdxFront := x, mIdxBack := x }
      { b' with mUstrWork := work, mIdxFront := x', mIdxBack := x' } := by
  cases h
  exact .mk _ _ _ _ _ _ hx hx

theorem SameText.ustrCurrent (h : SameText b b') (ustr : U32String) :
    SameText { b with mUstrCurrent := ustr } { b' with mUstrCurrent := ustr } := by
  cases h with
  | mk _ _ _ _ _ hf hb => exact .mk _ _ _ _ _ _ hf hb

/-! ### Replacing the selection -/

theorem SameText.selectionClear (h : SameText b b') (hr : b.ClearOk) (hr' : b'.ClearOk) :
    SameResult b.selectionClear b'.selectionClear := by
  have hl := h.low
  rw [ClearOk, remaining, h.work, hl.cursorAbs, h.selectionLen] at hr'
  rw [ClearOk, remaining] at hr
  simp only [TextBox.selectionClear, h.work, hl.cursorAbs, h.selectionLen, eraseAt]
  split
  · next work hw =>
    split at hw
    · cases hw
    · cases hw
      exact h.result _
  · next work hw =>
    split at hw
    · cases hw
      exact ⟨h.replaced _ (hl.sizeSet hr hr'), rfl⟩
    · cases hw

theorem SameText.selectionInsert (h : SameText b b') (str : StdString) :
    SameResult (b.selectionInsert str) (b'.selectionInsert str) := by
  have hs := h
  cases h with
  | mk _ _ _ _ _ hf hb =>
    simp only [TextBox.selectionInsert, hf.cursorAbs]
    split
    · exact hs.result _
    · split
      · exact hs.result _
      · exact ⟨hs.replaced _ (hf.iterate_insert _), rfl⟩

/-- The outcome of a call decides what is called next. -/
@[elab_as_elim]
theorem SameResult.cases {α : Type} {motive : Result α → Result α → Prop} {r r' : Result α}
    (h : SameResult r r') (error : ∀ b b' e, SameText b b' → motive (b, .error e) (b', .error e))
    (ok : ∀ b b' a, SameText b b' → motive (b, .ok a) (b', .ok a)) : motive r r' := by
  obtain ⟨b, a⟩ := r
  obtain ⟨b', a'⟩ := r'
  obtain ⟨hb, rfl⟩ := h
  cases a' with
  | error e => exact error b b' e hb
  | ok a => exact ok b b' a hb

theorem SameText.selectionReplace (h : SameText b b') (str : StdString) (hr : b.ClearOk)
    (hr' : b'.ClearOk) : SameResult (b.selectionReplace str) (b'.selectionReplace str) := by
  unfold TextBox.selectionReplace
  exact SameResult.cases (h.selectionClear hr hr') (fun _ _ _ hb => hb.result _)
    fun _ _ _ hb => hb.selectionInsert str

/-! ### Texts and focus -/

theorem SameText.focusSet (h : SameText b b') (foc accept : Bool) :
    SameResult (b.focusSet foc accept) (b'.focusSet foc accept) := by
  cases h with
  | mk _ _ _ _ _ hf hb =>
    cases foc with
    | true =>
      have hx := hf.sizeSet_cursorEndSet (sizeToU32 (b.mUstrCurrent.length + 1))
      exact ⟨.mk _ _ _ _ _ _ hx hx, rfl⟩
    | false =>
      simp only [TextBox.focusSet, Bool.false_eq_true, if_false]
      cases accept with
      | true =>
        have hx := hf.sizeSet_reset (sizeToU32 (b.mUstrWork.length + 1))
        simp only [if_true]
        cases utfToStr b.mUstrWork with
        | none => exact ⟨.mk _ _ _ _ _ _ hf hb, rfl⟩
        | some str => exact ⟨.mk _ _ _ _ _ _ hx hx, rfl⟩
      | false =>
        have hx := hf.sizeSet_reset (sizeToU32 (b.mUstrCurrent.length + 1))
        exact ⟨.mk _ _ _ _ _ _ hx hx, rfl⟩

theorem SameText.selectionSet (h : SameText b b') (idxStart len : UInt16) :
    SameText (b.selectionSet idxStart len) (b'.selectionSet idxStart len) := by
  cases h with
  | mk _ _ _ _ _ hf hb =>
    have hx := hf.reset.1
    exact .mk _ _ _ _ _ _ ((hx.iterate_inc _).iterate_inc _) (hx.iterate_inc _)

theorem SameText.currentSet (h : SameText b b') (str : StdString)
    (hr : b.mFocus = false → b.CurrentOk str) (hr' : b'.mFocus = false → b'.CurrentOk str) :
    SameResult (b.currentSet str) (b'.currentSet str) := by
  cases h with
  | mk _ _ _ _ _ hf hb =>
    cases hu : strToUtf str with
    | none =>
      simp only [TextBox.currentSet, hu]
      exact ⟨.mk _ _ _ _ _ _ hf hb, rfl⟩
    | some ustr =>
      simp only [TextBox.currentSet, hu]
      split
      · exact ⟨.mk _ _ _ _ _ _ hf hb, rfl⟩
      · next hfoc =>
        rw [Bool.not_eq_true] at hfoc
        have hs := hr hfoc ustr hu
        have hs' := hr' hfoc ustr hu
        refine ⟨.mk _ _ _ _ _ _ (hf.sizeSet hs.1 hs'.1) ?_, rfl⟩
        simp only [ListIdx.assign, ListIdx.size, ListIdx.sizeSet_mSize]
        exact hb.sizeSet hs.2 hs'.2

theorem SameText.ustrWorkSet (h : SameText b b') (ustr : U32String) :
    SameText (b.ustrWorkSet ustr) (b'.ustrWorkSet ustr) := by
  have hs := h
  cases h with
  | mk _ _ _ _ _ hf hb =>
    simp only [TextBox.ustrWorkSet]
    split
    · exact .mk _ _ _ _ _ _ hf hb
    · exact hs.replaced ustr (hf.sizeSet_cursorEndSet _)

theorem SameText.paste (h : SameText b b') (str : StdString)
    (hr : if b.mFocus then b.ClearOk else b.CurrentOk str)
    (hr' : if b'.mFocus then b'.ClearOk else b'.CurrentOk str) :
    SameResult (b.paste str) (b'.paste str) := by
  unfold TextBox.paste
  rw [h.focus] at hr' ⊢
  cases hfoc : b.mFocus with
  | true =>
    rw [hfoc, if_pos rfl] at hr hr'
    exact h.selectionReplace str hr hr'
  | false =>
    rw [hfoc, if_neg Bool.false_ne_true] at hr hr'
    exact h.currentSet str (fun _ => hr) (fun _ => hr')

/-! ### Keys -/

theorem SameText.clipboardSet (h : SameText b b') : SameResult b.clipboardSet b'.clipboardSet := by
  have hs := h
  have hl := h.low.cursorAbs
  have hlen := h.selectionLen
  unfold TextBox.clipboardSet
  rw [hl, hlen]
  cases h with
  | mk _ _ _ _ _ hf hb =>
    dsimp only
    split
    · exact ⟨.mk _ _ _ _ _ _ hf hb, rfl⟩
    · split
      · exact hs.result _
      · split
        · exact hs.result _
        · exact ⟨.mk _ _ _ _ _ _ hf hb, rfl⟩

theorem SameText.dirtySet (h : SameText b b') : SameResult b.dirtySet b'.dirtySet := by
  cases h with
  | mk _ _ _ _ _ hf hb => exact ⟨.mk _ _ _ _ _ _ hf hb, rfl⟩

theorem SameText.replaceDirty (h : SameText b b') (str : StdString) (hr : b.ClearOk)
    (hr' : b'.ClearOk) : SameResult (b.replaceDirty str) (b'.replaceDirty str) := by
  unfold TextBox.replaceDirty
  exact SameResult.cases (h.selectionReplace str hr hr') (fun _ _ _ hb => hb.result _)
    fun _ _ _ hb => hb.dirtySet

/-- The jump compares positions of the text only. -/
theorem SameText.cursorJump (h : SameText b b') (key : KeyUser) :
    SameMove (b.cursorJump key) (b'.cursorJump key) := by
  cases h with
  | mk _ _ _ _ _ hf hb =>
    simp only [TextBox.cursorJump, hf.cursorAbs]
    split
    · exact ⟨hf, rfl⟩
    · generalize key.eqCtrl keyRight = isRight
      have hmove : ∀ {x x' : ListIdx}, SameCursor x x' →
          SameCursor (jumpMove isRight x) (jumpMove isRight x') := by
        intro x x' hx
        cases isRight with
        | true => exact hx.inc.1
        | false => exact hx.dec.1
      have hiterate : ∀ k {x x' : ListIdx}, SameCursor x x' →
          SameCursor ((jumpMove isRight)^[k] x) ((jumpMove isRight)^[k] x') := by
        intro k
        induction k with
        | zero => exact id
        | succ k ih => exact fun hx => ih (hmove hx)
      obtain ⟨k, -, hk⟩ := cursorJumpLoop_rounds _ isRight _ (2 ^ 16) _ _ none
      rw [hk, hk]
      exact ⟨hiterate k hf, rfl⟩

/-- The same move of both, or none. -/
def SameChoice (m m' : Option (ListIdx × Bool)) : Prop :=
  m = none ∧ m' = none ∨ ∃ r r', m = some r ∧ m' = some r' ∧ SameMove r r'

theorem SameText.navigateFront (h : SameText b b') (key : KeyUser) :
    b.navigateFront key = none ∧ b'.navigateFront key = none ∨
      ∃ r r', b.navigateFront key = some r ∧ b'.navigateFront key = some r' ∧ SameMove r r' := by
  have hj := h.cursorJump key
  cases h with
  | mk _ _ _ _ _ hf hb =>
    have hsome {r r'} (hr : SameMove r r') : SameChoice (some r) (some r') :=
      .inr ⟨r, r', rfl, rfl, hr⟩
    unfold TextBox.navigateFront
    show SameChoice _ _
    refine rel_ite (hsome hf.reset) (rel_ite (hsome hf.cursorEndSet) (rel_ite (hsome hj)
      (rel_ite (hsome hf.dec) (rel_ite (hsome hf.inc)
        (rel_ite (hsome (hf.keyProcess key [])) ?_)))))
    exact .inl ⟨rfl, rfl⟩

theorem SameText.keyCut (h : SameText b b')
    (hr : b.mFocus = true → (utfToStr b.selected).isSome = true → b.ClearOk)
    (hr' : b'.mFocus = true → (utfToStr b'.selected).isSome = true → b'.ClearOk) :
    SameResult b.keyCut b'.keyCut := by
  have hs := h.clipboardSet
  have hfoc := h.focus
  unfold TextBox.keyCut
  rcases clipboardSet_cases b with ⟨str, hc, hu⟩ | ⟨e, hc, -⟩ <;>
    rcases clipboardSet_cases b' with ⟨str', hc', hu'⟩ | ⟨e', hc', -⟩ <;>
    simp only [hc, hc'] at hs ⊢
  · by_cases hf : b.mFocus = true
    · have hf' := hfoc.trans hf
      rw [if_neg (by rw [hf]; decide), if_neg (by rw [hf']; decide)]
      exact hs.1.replaceDirty _ (hr hf (hu hf)) (hr' hf' (hu' hf'))
    · rw [Bool.not_eq_true] at hf
      rw [if_pos (by rw [hf]; rfl), if_pos (by rw [hfoc, hf]; rfl)]
      exact (hs.1.ustrCurrent []).dirtySet
  · cases hs.2
  · cases hs.2
  · cases hs.2
    exact hs.1.result _

theorem SameText.keyCopy (h : SameText b b') : SameResult b.keyCopy b'.keyCopy := by
  unfold TextBox.keyCopy
  exact SameResult.cases h.clipboardSet (fun _ _ _ hb => hb.result _) fun _ _ _ hb => hb.result _

theorem SameText.keySelectAll (h : SameText b b') : SameResult b.keySelectAll b'.keySelectAll := by
  cases h with
  | mk _ _ _ _ _ hf hb =>
    have hr := hb.reset
    have he := hf.cursorEndSet
    simp only [TextBox.keySelectAll, hr.2, he.2]
    exact ⟨.mk _ _ _ _ _ _ he.1 hr.1, rfl⟩

theorem SameText.keyBackspaceProcess (h : SameText b b') (hr : b.isSelection = true → b.ClearOk)
    (hr' : b'.isSelection = true → b'.ClearOk) :
    SameResult b.keyBackspaceProcess b'.keyBackspaceProcess := by
  have hs := h
  unfold TextBox.keyBackspaceProcess
  rw [h.isSelection] at hr' ⊢
  split
  · next hsel => exact h.replaceDirty _ (hr hsel) (hr' hsel)
  · cases h with
    | mk _ _ _ _ _ hf hb =>
      have hp := hf.prevErase
      simp only [hp.2, hp.1.cursorAbs]
      split
      · exact ⟨.mk _ _ _ _ _ _ hp.1 hb, rfl⟩
      · split
        · exact ⟨.mk _ _ _ _ _ _ hp.1 hb, rfl⟩
        · exact (hs.replaced _ hp.1).dirtySet

theorem SameText.keyDeleteProcess (h : SameText b b') (hr : b.isSelection = true → b.ClearOk)
    (hr' : b'.isSelection = true → b'.ClearOk) :
    SameResult b.keyDeleteProcess b'.keyDeleteProcess := by
  have hs := h
  unfold TextBox.keyDeleteProcess
  rw [h.isSelection] at hr' ⊢
  split
  · next hsel => exact h.replaceDirty _ (hr hsel) (hr' hsel)
  · cases h with
    | mk _ _ _ _ _ hf hb =>
      have hp := hf.currErase
      simp only [hp.2, hf.cursorAbs, ListIdx.size, hf.mSize]
      split
      · exact hs.result _
      · split
        · exact ⟨.mk _ _ _ _ _ _ hp.1 hb, rfl⟩
        · split
          · exact ⟨.mk _ _ _ _ _ _ hp.1 hp.1, rfl⟩
          · exact (hs.replaced _ hp.1).dirtySet

theorem SameText.keyPrintProcess (h : SameText b b') (key : KeyUser)
    (hr : b.isSelection = true → key.utf8.isSome = true →
      ¬ (b.mNumbersOnly && (key.ltChar '0'.val || key.gtChar '9'.val)) = true → b.ClearOk)
    (hr' : b'.isSelection = true → key.utf8.isSome = true →
      ¬ (b'.mNumbersOnly && (key.ltChar '0'.val || key.gtChar '9'.val)) = true → b'.ClearOk) :
    SameResult (b.keyPrintProcess key) (b'.keyPrintProcess key) := by
  have hs := h
  have hsel' := h.isSelection
  unfold TextBox.keyPrintProcess
  rw [hsel']
  cases h with
  | mk _ _ _ _ _ hf hb =>
    dsimp only
    split
    · exact hs.result _
    · next hnum =>
      split
      · next hsel =>
        split
        · exact hs.result _
        · next str hu =>
          have h8 : key.utf8.isSome = true := by rw [hu]; rfl
          exact hs.replaceDirty _ (hr hsel h8 hnum) (hr' (hsel'.trans hsel) h8 hnum)
      · split
        · exact hs.result _
        · rw [hf.cursorAbs]
          split
          · exact hs.result _
          · exact (hs.replaced _ hf.insert).dirtySet

theorem SameText.keyEdit (h : SameText b b') (key : KeyUser) (hfoc : b.mFocus = true)
    (hr : b.Replaces key → b.ClearOk) (hr' : b'.Replaces key → b'.ClearOk) :
    SameResult (b.keyEdit key) (b'.keyEdit key) := by
  have hfoc' := h.focus.trans hfoc
  unfold TextBox.keyEdit
  split
  · next hk =>
    exact h.keyBackspaceProcess (fun hs => hr ⟨hfoc, .inr ⟨hs, .inl hk⟩⟩)
      fun hs => hr' ⟨hfoc', .inr ⟨hs, .inl hk⟩⟩
  · split
    · next hk =>
      exact h.keyDeleteProcess (fun hs => hr ⟨hfoc, .inr ⟨hs, .inr (.inl hk)⟩⟩)
        fun hs => hr' ⟨hfoc', .inr ⟨hs, .inr (.inl hk)⟩⟩
    · split
      · exact h.result _
      · next hk =>
        rw [Bool.not_eq_true', Bool.not_eq_false] at hk
        exact h.keyPrintProcess key
          (fun hs hu hnum => hr ⟨hfoc, .inr ⟨hs, .inr (.inr ⟨hk, hu, hnum⟩)⟩⟩)
          fun hs hu hnum => hr' ⟨hfoc', .inr ⟨hs, .inr (.inr ⟨hk, hu, hnum⟩)⟩⟩

theorem SameText.mDirty (h : SameText b b') (dirty : Bool) :
    SameText { b with mDirty := dirty } { b' with mDirty := dirty } := by
  cases h with
  | mk _ _ _ _ _ hf hb => exact .mk _ _ _ _ _ _ hf hb

/-- A navigation key moves the front index, and the back index with it or not. -/
theorem SameText.navigated (h : SameText b b') {x x' : ListIdx} (hx : SameCursor x x') :
    SameText { b with mIdxFront := x } { b' with mIdxFront := x' } ∧
      SameText { b with mIdxFront := x, mIdxBack := x }
        { b' with mIdxFront := x', mIdxBack := x' } := by
  cases h with
  | mk _ _ _ _ _ hf hb => exact ⟨.mk _ _ _ _ _ _ hx hb, .mk _ _ _ _ _ _ hx hx⟩

theorem SameText.keyProcess (h : SameText b b') (key : KeyUser)
    (hr : b.Replaces key → b.ClearOk) (hr' : b'.Replaces key → b'.ClearOk) :
    SameResult (b.keyProcess key) (b'.keyProcess key) := by
  have hd := h.mDirty false
  have hfoc := h.focus
  unfold TextBox.keyProcess
  dsimp only
  split
  · next hk =>
    exact hd.keyCut (fun hf hu => hr ⟨hf, .inl ⟨hk, hu⟩⟩) fun hf hu => hr' ⟨hf, .inl ⟨hk, hu⟩⟩
  · split
    · exact hd.keyCopy
    · by_cases hf : b.mFocus = true
      · have hf' := hfoc.trans hf
        rw [if_neg (show ¬ (!b.mFocus) = true by rw [hf]; decide),
          if_neg (show ¬ (!b'.mFocus) = true by rw [hf']; decide)]
        split
        · exact hd.keySelectAll
        · unfold TextBox.navigate
          rcases hd.navigateFront key with ⟨hn, hn'⟩ | ⟨r, r', hn, hn', hm⟩
          · simp only [hn, hn', Bool.false_eq_true, if_false]
            exact hd.keyEdit key hf hr hr'
          · have hmv := hd.navigated hm.1
            simp only [hn, hn', hm.2, keyEdit_of_navigate hn]
            cases key.modShift with
            | false => exact hmv.2.dirtySet
            | true =>
              cases r.2 with
              | false => exact hmv.1.result _
              | true => exact hmv.1.dirtySet
      · rw [Bool.not_eq_true] at hf
        rw [if_pos (show (!b.mFocus) = true by rw [hf]; rfl),
          if_pos (show (!b'.mFocus) = true by rw [hfoc, hf]; rfl)]
        exact hd.result _

/-! ## Runs -/

theorem step_same {op : Op} (h : SameText b b') (hv : op.isView = false) (hr : b.ResizesOk op)
    (hr' : b'.ResizesOk op) : SameResult (b.step op) (b'.step op) := by
  have map {α : Type} {r r' : Result α} (f : α → Option Bool) (hs : SameResult r r') :
      SameResult (r.1, r.2.map f) (r'.1, r'.2.map f) := ⟨hs.1, by rw [hs.2]⟩
  have hs := h
  cases op with
  | widthSet width | frameEnabledSet val | paddingEnabledSet val | cursorBoundSet bnd => cases hv
  | focusSet foc accept => exact map _ (h.focusSet foc accept)
  | selectionSet idxStart len => exact (h.selectionSet idxStart len).result _
  | currentSet str => exact map _ (h.currentSet str hr hr')
  | ustrWorkSet ustr => exact (h.ustrWorkSet ustr).result _
  | paste str => exact map _ (h.paste str hr hr')
  | keyProcess key => exact map some (h.keyProcess key hr hr')
  | lenMaxSet | passwordModeSet | numbersOnlySet | cursorShow =>
    cases h with
    | mk _ _ _ _ _ hf hb => exact ⟨.mk _ _ _ _ _ _ hf hb, rfl⟩
  | dirty =>
    cases h with
    | mk _ _ _ _ _ hf hb => exact ⟨.mk _ _ _ _ _ _ hf hb, rfl⟩
  | clipboard clear =>
    cases clear with
    | false => exact hs.result _
    | true =>
      cases h with
      | mk _ _ _ _ _ hf hb => exact ⟨.mk _ _ _ _ _ _ hf hb, rfl⟩

instance : DecidableEq StdString := ByteArray.instDecidableEq

/-- What a caller can compare after a call. -/
structure Observation where
  ustrWork : U32String
  current : StdString
  clipboard : StdString
  cursorAbsFront : UInt32
  cursorAbsBack : UInt32
  result : Except Exn (Option Bool)
deriving DecidableEq

def observation (b : TextBox) (result : Except Exn (Option Bool)) : Observation where
  ustrWork := b.ustrWork
  current := b.current
  clipboard := (b.clipboard false).2
  cursorAbsFront := b.cursorAbsFront
  cursorAbsBack := b.cursorAbsBack
  result

/-- A call, and what can be observed after it. -/
def observe (b : TextBox) (op : Op) : TextBox × Observation :=
  (b.apply op, (b.apply op).observation (b.step op).2)

theorem SameText.observation (h : SameText b b') (result : Except Exn (Option Bool)) :
    b.observation result = b'.observation result := by
  cases h with
  | mk _ _ _ _ _ hf hb =>
    simp only [TextBox.observation, cursorAbsFront, cursorAbsBack, hf.cursorAbs, hb.cursorAbs]
    rfl

theorem observe_same {op : Op} (h : SameText b b') (hv : op.isView = false) (hr : b.ResizesOk op)
    (hr' : b'.ResizesOk op) :
    SameText (b.observe op).1 (b'.observe op).1 ∧ (b.observe op).2 = (b'.observe op).2 := by
  have hs := step_same h hv hr hr'
  refine ⟨hs.1, ?_⟩
  simp only [observe, hs.2]
  exact hs.1.observation _

/-! ### Setting the view -/

/-- An index of one position that has not been moved. -/
structure Unused (x : ListIdx) : Prop where
  inv : x.RepInv
  size : x.mSize = 1
  sizeJump : x.mSizeJump = dDefaultSizeJump

theorem Unused.winSet {x : ListIdx} (h : Unused x) {win : UInt32} (hw : win.toNat < 2 ^ 16) :
    Unused (x.winSet win) where
  inv := ListIdx.winSet_repInv h.inv (by rw [h.size, UInt32.toNat_one]; omega)
  size := (ListIdx.winSet_mSize x win).trans h.size
  sizeJump := (ListIdx.sanityCheck_same { x with mWin := win }).sizeJump.trans h.sizeJump

theorem Unused.cursorBoundSet {x : ListIdx} (h : Unused x) (bnd : UInt32) :
    Unused (x.cursorBoundSet bnd) where
  inv := ListIdx.cursorBoundSet_repInv h.inv bnd
  size := (ListIdx.cursorBoundSet_frame x bnd).2.trans h.size
  sizeJump := by
    unfold ListIdx.cursorBoundSet
    split <;> exact h.sizeJump

/-- With a window, there is only one cursor for it to show. -/
theorem Unused.sameCursor {x x' : ListIdx} (h : Unused x) (h' : Unused x') (hw : x.mWin ≠ 0)
    (hw' : x'.mWin ≠ 0) : SameCursor x x' := by
  rw [ne_eq, ListIdx.toNat_eq_zero] at hw hw'
  obtain ⟨c, hc, hx⟩ := h.inv.refines (Nat.pos_of_ne_zero hw)
  obtain ⟨c', hc', hx'⟩ := h'.inv.refines (Nat.pos_of_ne_zero hw')
  rw [h.size, UInt32.toNat_one] at hc
  rw [h'.size, UInt32.toNat_one] at hc'
  have heq : c' = c := by
    have hr := c.inRange
    have hr' := c'.inRange
    ext
    · rw [hc, hc']
    · omega
  exact ⟨⟨c, hx, heq ▸ hx'⟩, by rw [h.sizeJump, h'.sizeJump]⟩

/-- A new box whose view has been set. -/
inductive Fresh : TextBox → Prop
  | mk (mWidth : UInt16) (mFrameEnabled mPaddingEnabled : Bool) (mIdxFront mIdxBack : ListIdx) :
      Unused mIdxFront → Unused mIdxBack → mIdxBack.mWin = mIdxFront.mWin →
      Fresh { new with mWidth, mFrameEnabled, mPaddingEnabled, mIdxFront, mIdxBack }

theorem fresh_new : Fresh new := by
  have h : Unused ((ListIdx.winSet {} 10).sizeSet 1) :=
    ⟨ListIdx.sizeSet_repInv (ListIdx.winSet_repInv ListIdx.empty_repInv (by decide)) 1,
      by decide, by decide⟩
  have hn := Fresh.mk 10 true true _ _ h h rfl
  rw [new_eq] at hn ⊢
  exact hn

/-- `widthSet` gives both indexes one window, or does nothing. -/
theorem widthSet_cases (b : TextBox) (width : UInt16) :
    b.widthSet width = b ∨ ∃ win : UInt32, win.toNat < 2 ^ 16 ∧
      b.widthSet width = { b with
        mWidth := width
        mIdxFront := b.mIdxFront.winSet win
        mIdxBack := b.mIdxBack.winSet win } := by
  unfold TextBox.widthSet
  extract_lets b' width' width'' idxFront
  split
  · exact .inl rfl
  · refine .inr ⟨width''.toUInt32, ?_, ?_⟩
    · rw [UInt16.toNat_toUInt32]
      exact width''.toNat_lt
    · have hwin : idxFront.win = width''.toUInt32 := ListIdx.winSet_mWin _ _
      rw [hwin]

theorem Fresh.widthSet (h : Fresh b) (width : UInt16) : Fresh (b.widthSet width) := by
  rcases widthSet_cases b width with hb | ⟨win, hlt, hb⟩
  · rw [hb]
    exact h
  · rw [hb]
    cases h with
    | mk _ _ _ _ _ hf hbk hw =>
      exact .mk _ _ _ _ _ (hf.winSet hlt) (hbk.winSet hlt)
        ((ListIdx.winSet_mWin _ _).trans (ListIdx.winSet_mWin _ _).symm)

theorem Fresh.apply (h : Fresh b) {op : Op} (hv : op.isView = true) : Fresh (b.apply op) := by
  cases op with
  | widthSet width => exact h.widthSet width
  | frameEnabledSet val =>
    refine Fresh.widthSet ?_ _
    cases h with
    | mk _ _ _ _ _ hf hb hw => exact .mk _ _ _ _ _ hf hb hw
  | paddingEnabledSet val =>
    refine Fresh.widthSet ?_ _
    cases h with
    | mk _ _ _ _ _ hf hb hw => exact .mk _ _ _ _ _ hf hb hw
  | cursorBoundSet bnd =>
    cases h with
    | mk _ _ _ x y hf hb hw =>
      exact .mk _ _ _ _ _ (hf.cursorBoundSet bnd) (hb.cursorBoundSet bnd)
        ((ListIdx.cursorBoundSet_frame y bnd).1.trans
          (hw.trans (ListIdx.cursorBoundSet_frame x bnd).1.symm))
  | lenMaxSet | passwordModeSet | numbersOnlySet | focusSet | selectionSet | cursorShow | currentSet
  | ustrWorkSet | paste | keyProcess | dirty | clipboard => cases hv

theorem Fresh.run (h : Fresh b) {ops : List Op} (hv : ∀ op ∈ ops, op.isView = true) :
    Fresh (b.run ops) := by
  induction ops generalizing b with
  | nil => exact h
  | cons op ops ih =>
    exact ih (h.apply (hv op List.mem_cons_self)) fun o ho => hv o (List.mem_cons_of_mem _ ho)

theorem Fresh.sameText (h : Fresh b) (h' : Fresh b') (hw : b.mIdxFront.mWin ≠ 0)
    (hw' : b'.mIdxFront.mWin ≠ 0) : SameText b b' := by
  cases h with
  | mk _ _ _ x y hf hb hxy =>
    cases h' with
    | mk _ _ _ x' y' hf' hb' hxy' =>
      have hy : y.mWin ≠ 0 := by rw [hxy]; exact hw
      have hy' : y'.mWin ≠ 0 := by rw [hxy']; exact hw'
      exact .mk { new with mIdxFront := x, mIdxBack := y, mWidth := _, mFrameEnabled := _,
                           mPaddingEnabled := _ } _ _ _ _ _
        (hf.sameCursor hf' hw hw') (hb.sameCursor hb' hy hy')

/-- Two boxes whose views were set differently, with a window each, agree on every
sequence of text operations, as far as their cursors survive the resizes. -/
theorem view_independence {views views' ops : List Op} (hv : ∀ op ∈ views, op.isView = true)
    (hv' : ∀ op ∈ views', op.isView = true) (hw : (new.run views).mIdxFront.mWin ≠ 0)
    (hw' : (new.run views').mIdxFront.mWin ≠ 0) (ho : ∀ op ∈ ops, op.isView = false)
    (hr : Transition.Admissible ResizesOk observe (new.run views) ops)
    (hr' : Transition.Admissible ResizesOk observe (new.run views') ops) :
    Transition.outputs observe (new.run views) ops =
      Transition.outputs observe (new.run views') ops := by
  have hstep (s t : TextBox) (op : Op) (h : SameText s t)
      (hs : op.isView = false ∧ s.ResizesOk op) (ht : op.isView = false ∧ t.ResizesOk op) :
      SameText (s.observe op).1 (t.observe op).1 ∧ (s.observe op).2 = (t.observe op).2 :=
    observe_same h hs.1 hs.2 ht.2
  exact Transition.outputs_eq hstep ops ((fresh_new.run hv).sameText (fresh_new.run hv') hw hw')
    (hr.and ho) (hr'.and ho)

/-- A box of width ten and a new one type the same. -/
theorem view_independence_typing :
    Transition.outputs observe (new.run [.widthSet 10])
        [.focusSet true false, .keyProcess (.ofChar 97), .keyProcess (.ofChar 98)] =
      Transition.outputs observe (new.run [])
        [.focusSet true false, .keyProcess (.ofChar 97), .keyProcess (.ofChar 98)] := by
  refine view_independence (by decide) (by decide) ?_ ?_ (by decide) ?_ ?_
  · rw [new_eq]
    decide
  · rw [new_eq]
    decide
  all_goals
    rw [new_eq]
    refine ⟨trivial, fun h => absurd h ?_, fun h => absurd h ?_, trivial⟩ <;>
      exact fun h => absurd h.2 (by decide)

/-! ## The two defects -/

/-- Typing `ab` in a window of no columns gives `ba`. In a window of six, the removal of
a selection in front of four code points moves the cursor behind them. -/
theorem views_differ :
    Transition.outputs observe (new.run [.widthSet 4])
        [.focusSet true false, .keyProcess (.ofChar 97), .keyProcess (.ofChar 98)] ≠
      Transition.outputs observe (new.run [])
        [.focusSet true false, .keyProcess (.ofChar 97), .keyProcess (.ofChar 98)] ∧
    Transition.outputs observe (new.run [.widthSet 10])
        ([.focusSet true false, .ustrWorkSet [97, 98, 99, 100, 101, 102, 103, 104]] ++
          List.replicate 5 (.keyProcess (.ofCtrl keyLeft)) ++
          List.replicate 4 (.keyProcess { KeyUser.ofCtrl keyRight with mModShift := true }) ++
          [.keyProcess (.ofCtrl keyBackspace)]) ≠
      Transition.outputs observe (new.run [])
        ([.focusSet true false, .ustrWorkSet [97, 98, 99, 100, 101, 102, 103, 104]] ++
          List.replicate 5 (.keyProcess (.ofCtrl keyLeft)) ++
          List.replicate 4 (.keyProcess { KeyUser.ofCtrl keyRight with mModShift := true }) ++
          [.keyProcess (.ofCtrl keyBackspace)]) := by
  rw [new_eq]
  decide +kernel

end TextBox

end ProcessingCommon
