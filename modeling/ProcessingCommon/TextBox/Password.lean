import ProcessingCommon.TextBox.Texts

/-!
# Password mode

`print` masks the characters, but the keys work on the real ones. Two boxes with hidden texts of
one length stay alike under every key but two: the word jumps look for boundary characters, and
Ctrl-X throws where the selected text cannot be encoded.
-/

namespace ProcessingCommon
namespace TextBox

variable {b b' : TextBox} {key : KeyUser} {m : Modifiers} {α : Type}

/-! ## Boxes with hidden texts -/

/-- The box without its texts. The flag for the next redraw is not printed either. -/
def withoutTexts (b : TextBox) : TextBox :=
  { b with
    mCurrent := ByteArray.empty
    mUstrCurrent := []
    mUstrWork := []
    mClipboard := ByteArray.empty
    mDirty := false }

/-- Equal configuration, equal cursors and hidden texts of equal length. -/
structure SameMask (b b' : TextBox) : Prop where
  rest : b'.withoutTexts = b.withoutTexts
  length : b'.mUstrWork.length = b.mUstrWork.length

theorem SameMask.front (h : SameMask b b') : b'.mIdxFront = b.mIdxFront :=
  (congrArg mIdxFront h.rest :)
theorem SameMask.back (h : SameMask b b') : b'.mIdxBack = b.mIdxBack :=
  (congrArg mIdxBack h.rest :)
theorem SameMask.focus (h : SameMask b b') : b'.mFocus = b.mFocus :=
  (congrArg mFocus h.rest :)
theorem SameMask.lenMax (h : SameMask b b') : b'.mLenMax = b.mLenMax :=
  (congrArg mLenMax h.rest :)
theorem SameMask.numbersOnly (h : SameMask b b') : b'.mNumbersOnly = b.mNumbersOnly :=
  (congrArg mNumbersOnly h.rest :)

theorem SameMask.low (h : SameMask b b') : b'.listIdxLow = b.listIdxLow := by
  rw [listIdxLow, listIdxLow, h.front, h.back]

theorem SameMask.high (h : SameMask b b') : b'.listIdxHigh = b.listIdxHigh := by
  rw [listIdxHigh, listIdxHigh, h.front, h.back]

theorem SameMask.selectionLen (h : SameMask b b') : b'.selectionLen = b.selectionLen := by
  rw [TextBox.selectionLen, TextBox.selectionLen, h.low, h.high]

theorem SameMask.isSelection (h : SameMask b b') : b'.isSelection = b.isSelection := by
  rw [TextBox.isSelection, TextBox.isSelection, h.front, h.back]

/-- Equal changes of the cursors and texts of equal length. -/
theorem SameMask.edit (h : SameMask b b') {work work' : U32String} {clip clip' : StdString}
    {front front' back back' : ListIdx} {dirty dirty' : Bool} (hlen : work'.length = work.length)
    (hfront : front' = front) (hback : back' = back) :
    SameMask { b with
        mUstrWork := work, mClipboard := clip, mIdxFront := front, mIdxBack := back,
        mDirty := dirty }
      { b' with
        mUstrWork := work', mClipboard := clip', mIdxFront := front', mIdxBack := back',
        mDirty := dirty' } where
  rest := by
    rw [hfront, hback]
    exact congrArg (fun c : TextBox => { c with mIdxFront := front, mIdxBack := back }) h.rest
  length := hlen

/-- Two calls leave alike boxes and come to the same end. -/
structure MaskedBy (r r' : Result α) : Prop where
  mask : SameMask r.1 r'.1
  result : r'.2 = r.2

theorem eraseAt_sameLength {s s' : U32String} (h : s'.length = s.length) (pos len : Nat) :
    (eraseAt s pos len = .error .outOfRange ∧ eraseAt s' pos len = .error .outOfRange) ∨
    ∃ t t', eraseAt s pos len = .ok t ∧ eraseAt s' pos len = .ok t' ∧ t'.length = t.length := by
  rw [eraseAt, eraseAt, h]
  split
  · refine .inr ⟨_, _, rfl, rfl, ?_⟩
    simp only [List.length_append, List.length_take, List.length_drop, h]
  · exact .inl ⟨rfl, rfl⟩

theorem insertAt_sameLength {s s' : U32String} (h : s'.length = s.length) (pos : Nat)
    (str : U32String) :
    (insertAt s pos str = .error .outOfRange ∧ insertAt s' pos str = .error .outOfRange) ∨
    ∃ t t', insertAt s pos str = .ok t ∧ insertAt s' pos str = .ok t' ∧ t'.length = t.length := by
  rw [insertAt, insertAt, h]
  split
  · refine .inr ⟨_, _, rfl, rfl, ?_⟩
    simp only [List.length_append, List.length_take, List.length_drop, h]
  · exact .inl ⟨rfl, rfl⟩

/-! ## Edits -/

theorem selectionClear_masked (h : SameMask b b') :
    MaskedBy b.selectionClear b'.selectionClear := by
  rw [selectionClear, selectionClear, h.low, h.selectionLen]
  rcases eraseAt_sameLength h.length b.listIdxLow.cursorAbs.toNat b.selectionLen with
    ⟨he, he'⟩ | ⟨t, t', he, he', ht⟩
  · rw [he, he']
    exact ⟨h, rfl⟩
  · rw [he, he']
    dsimp only
    rw [ht]
    exact ⟨h.edit ht rfl rfl, rfl⟩

theorem selectionInsert_masked (h : SameMask b b') (str : StdString) :
    MaskedBy (b.selectionInsert str) (b'.selectionInsert str) := by
  unfold selectionInsert
  split
  · exact ⟨h, rfl⟩
  · next ustr hu =>
    extract_lets len idxFront len' idxFront'
    have hlen : len' = len := by
      show sizeSub _ _ = sizeSub _ _
      rw [h.length, h.lenMax]
    rw [hlen, h.front]
    rcases insertAt_sameLength h.length b.mIdxFront.cursorAbs.toNat (ustr.take len) with
      ⟨he, he'⟩ | ⟨t, t', he, he', ht⟩
    · rw [he, he']
      exact ⟨h, rfl⟩
    · rw [he, he']
      have hfront : idxFront' = idxFront := by
        show ListIdx.insert^[len'] _ = ListIdx.insert^[len] _
        rw [hlen, h.front]
      exact ⟨h.edit ht hfront hfront, rfl⟩

/-- What follows a call that did not throw. -/
def Result.andThen (r : Result Unit) (f : TextBox → Result α) : Result α :=
  match r with
  | (b, .error e) => (b, .error e)
  | (b, .ok ()) => f b

theorem MaskedBy.andThen {r r' : Result Unit} {f f' : TextBox → Result α} (h : MaskedBy r r')
    (hf : ∀ c c', SameMask c c' → MaskedBy (f c) (f' c')) :
    MaskedBy (Result.andThen r f) (Result.andThen r' f') := by
  obtain ⟨c, res⟩ := r
  obtain ⟨c', res'⟩ := r'
  obtain ⟨hmask, hres⟩ := h
  obtain rfl : res' = res := hres
  cases res' with
  | error e => exact ⟨hmask, rfl⟩
  | ok u => exact hf c c' hmask

theorem selectionReplace_masked (h : SameMask b b') (str : StdString) :
    MaskedBy (b.selectionReplace str) (b'.selectionReplace str) :=
  (selectionClear_masked h).andThen fun _ _ hc => selectionInsert_masked hc str

theorem dirtySet_masked (h : SameMask b b') : MaskedBy b.dirtySet b'.dirtySet := by
  unfold dirtySet
  exact ⟨h.edit h.length h.front h.back, rfl⟩

theorem replaceDirty_masked (h : SameMask b b') (str : StdString) :
    MaskedBy (b.replaceDirty str) (b'.replaceDirty str) :=
  (selectionReplace_masked h str).andThen fun _ _ hc => dirtySet_masked hc

theorem keyBackspaceProcess_masked (h : SameMask b b') :
    MaskedBy b.keyBackspaceProcess b'.keyBackspaceProcess := by
  rw [keyBackspaceProcess, keyBackspaceProcess, h.isSelection, h.front]
  split
  · exact replaceDirty_masked h _
  dsimp only
  split
  · exact ⟨h.edit h.length rfl h.back, rfl⟩
  rcases eraseAt_sameLength h.length b.mIdxFront.prevErase.1.cursorAbs.toNat 1 with
    ⟨he, he'⟩ | ⟨t, t', he, he', ht⟩
  · rw [he, he']
    exact ⟨h.edit h.length rfl h.back, rfl⟩
  · rw [he, he']
    exact ⟨h.edit ht rfl rfl, rfl⟩

theorem keyDeleteProcess_masked (h : SameMask b b') :
    MaskedBy b.keyDeleteProcess b'.keyDeleteProcess := by
  rw [keyDeleteProcess, keyDeleteProcess, h.isSelection, h.front]
  split
  · exact replaceDirty_masked h _
  split
  · exact ⟨h, rfl⟩
  dsimp only
  split
  · exact ⟨h.edit h.length rfl h.back, rfl⟩
  rcases eraseAt_sameLength h.length b.mIdxFront.cursorAbs.toNat 1 with
    ⟨he, he'⟩ | ⟨t, t', he, he', ht⟩
  · rw [he, he']
    exact ⟨h.edit h.length rfl rfl, rfl⟩
  · rw [he, he']
    exact ⟨h.edit ht rfl rfl, rfl⟩

theorem keyPrintProcess_masked (h : SameMask b b') (key : KeyUser) :
    MaskedBy (b.keyPrintProcess key) (b'.keyPrintProcess key) := by
  have hnumbers := congrArg (· && (key.ltChar '0'.val || key.gtChar '9'.val)) h.numbersOnly
  have hfull : (b'.mUstrWork.length ≥ b'.mLenMax) = (b.mUstrWork.length ≥ b.mLenMax) := by
    rw [h.length, h.lenMax]
  simp only [keyPrintProcess, hnumbers, h.isSelection, hfull, h.front]
  split
  · exact ⟨h, rfl⟩
  split
  · split
    · exact ⟨h, rfl⟩
    · exact replaceDirty_masked h _
  split
  · exact ⟨h, rfl⟩
  rcases insertAt_sameLength h.length b.mIdxFront.cursorAbs.toNat [key.mPrint] with
    ⟨he, he'⟩ | ⟨t, t', he, he', ht⟩
  · rw [he, he']
    exact ⟨h, rfl⟩
  · rw [he, he']
    exact ⟨h.edit ht rfl rfl, rfl⟩

theorem keyEdit_masked (h : SameMask b b') (key : KeyUser) :
    MaskedBy (b.keyEdit key) (b'.keyEdit key) := by
  rw [keyEdit, keyEdit]
  split
  · exact keyBackspaceProcess_masked h
  split
  · exact keyDeleteProcess_masked h
  split
  · exact ⟨h, rfl⟩
  · exact keyPrintProcess_masked h key

/-! ## Keys -/

/-- Whatever Ctrl-C does, it changes the clipboard only. -/
theorem keyCopy_masked (h : SameMask b b') :
    SameMask b.keyCopy.1 b'.keyCopy.1 := by
  have hclip := clipboardSet_cases b
  have hclip' := clipboardSet_cases b'
  rw [keyCopy, keyCopy]
  rcases hclip with ⟨str, hc, -⟩ | ⟨e, hc, -⟩ <;> rcases hclip' with ⟨str', hc', -⟩ | ⟨e', hc', -⟩
  all_goals
    rw [hc, hc']
    exact h.edit h.length h.front h.back

theorem keySelectAll_masked (h : SameMask b b') :
    SameMask b.keySelectAll.1 b'.keySelectAll.1 := by
  unfold keySelectAll
  exact h.edit h.length (congrArg (·.cursorEndSet.1) h.front) (congrArg (·.reset.1) h.back)

/-- Ctrl-X throws for both or for none. -/
def CutAlike (b b' : TextBox) : Prop :=
  (utfToStr b'.selected).isSome = (utfToStr b.selected).isSome

theorem clipboardSet_masked (h : SameMask b b') (hf : b.mFocus = true) (hcut : CutAlike b b') :
    MaskedBy b.clipboardSet b'.clipboardSet := by
  rw [clipboardSet_focused hf, clipboardSet_focused (h.focus.trans hf), h.low, h.length]
  rw [CutAlike] at hcut
  split
  · cases hu : utfToStr b.selected with
    | none =>
      rw [hu] at hcut
      have hu' : utfToStr b'.selected = none := by
        rw [← Option.not_isSome_iff_eq_none, hcut]
        exact Bool.false_ne_true
      rw [hu']
      exact ⟨h, rfl⟩
    | some str =>
      rw [hu] at hcut
      obtain ⟨str', hu'⟩ := Option.isSome_iff_exists.mp hcut
      rw [hu']
      exact ⟨h.edit h.length h.front h.back, rfl⟩
  · exact ⟨h, rfl⟩

theorem keyCut_masked (h : SameMask b b') (hf : b.mFocus = true) (hcut : CutAlike b b') :
    MaskedBy b.keyCut b'.keyCut := by
  refine (clipboardSet_masked h hf hcut).andThen fun c c' hc => ?_
  by_cases hfocus : (!c.mFocus) = true
  · rw [if_pos hfocus, if_pos (by rw [hc.focus]; exact hfocus)]
    have hcleared : SameMask { c with mUstrCurrent := [] } { c' with mUstrCurrent := [] } :=
      ⟨hc.rest, hc.length⟩
    exact dirtySet_masked hcleared
  · rw [if_neg hfocus, if_neg (by rw [hc.focus]; exact hfocus)]
    exact replaceDirty_masked hc _

/-! ### Word jumps -/

/-- The positions that the rounds of `cursorJump` compare, from the cursor to the end of the text;
they do not depend on the characters. -/
def jumpRounds (isRight : Bool) (idxStop : UInt16) :
    Nat → UInt16 → Nat → Option Nat → List (Option Nat × Nat)
  | 0, _, _, _ => []
  | n + 1, idxAbs, pCursor, pPrev =>
    if idxAbs = idxStop then []
    else
      let pCursor := if isRight then pCursor + 1 else pCursor - 1
      let idxAbs := if isRight then idxAbs + 1 else idxAbs - 1
      let pPrev := if idxAbs ≠ 0 then some (pCursor - 1) else pPrev
      (pPrev, pCursor) :: jumpRounds isRight idxStop n idxAbs pCursor pPrev

/-- A word ends (to the right) or begins (to the left) between the two positions. -/
def isWordEdge (work : U32String) (isRight : Bool) : Option Nat × Nat → Bool
  | (none, _) => false
  | (some p, q) => keyIsBoundary (.ofChar (charAt work p)) == !isRight &&
    keyIsBoundary (.ofChar (charAt work q)) == isRight

/-- The loop sees the text through its word edges only. -/
theorem cursorJumpLoop_alike {work work' : U32String} {isRight : Bool} {idxStop : UInt16} (n : Nat)
    (idxFront : ListIdx) (idxAbs : UInt16) (pCursor : Nat) (pPrev : Option Nat) (changed : Bool)
    (h : (jumpRounds isRight idxStop n idxAbs pCursor pPrev).findIdx? (isWordEdge work' isRight) =
      (jumpRounds isRight idxStop n idxAbs pCursor pPrev).findIdx? (isWordEdge work isRight)) :
    cursorJumpLoop work' isRight idxStop n idxFront idxAbs pCursor pPrev changed =
      cursorJumpLoop work isRight idxStop n idxFront idxAbs pCursor pPrev changed := by
  induction n generalizing idxFront idxAbs pCursor pPrev changed with
  | zero => rfl
  | succ n ih =>
    unfold cursorJumpLoop
    unfold jumpRounds at h
    split
    · rfl
    · next hstop =>
      rw [if_neg hstop] at h
      dsimp only at h ⊢
      rw [List.findIdx?_cons, List.findIdx?_cons] at h
      generalize (if isRight then idxAbs + 1 else idxAbs - 1) = idxAbs at h ⊢
      generalize (if isRight then pCursor + 1 else pCursor - 1) = pCursor at h ⊢
      generalize (if idxAbs ≠ 0 then some (pCursor - 1) else pPrev) = pPrev at h ⊢
      have hmap : ∀ {o o' : Option Nat}, o.map (· + 1) = o'.map (· + 1) → o = o' := by
        intro o o' ho
        exact Option.map_injective (fun _ _ => Nat.succ.inj) ho
      have hzero : ∀ o : Option Nat, o.map (· + 1) ≠ some 0 := by
        intro o ho
        obtain ⟨x, -, hx⟩ := Option.map_eq_some_iff.mp ho
        exact Nat.succ_ne_zero x hx
      cases pPrev with
      | none => exact ih _ _ _ _ _ (hmap h)
      | some p =>
        simp only [isWordEdge, Bool.and_eq_true, beq_iff_eq] at h
        dsimp only
        split at h <;> split at h
        · next hedge' hedge => rw [if_pos hedge, if_pos hedge']
        · exact absurd h.symm (hzero _)
        · exact absurd h (hzero _)
        · next hedge' hedge =>
          rw [if_neg hedge, if_neg hedge']
          exact ih _ _ _ _ _ (hmap h)

/-- The round in which a word jump finds its edge. -/
def edgeRound (b : TextBox) (key : KeyUser) : Option Nat :=
  let isRight := key.eqCtrl keyRight
  let idxAbs := b.mIdxFront.cursorAbs.toUInt16
  let idxStop := if isRight then UInt16.ofNat b.mUstrWork.length else 0
  (jumpRounds isRight idxStop (2 ^ 16) idxAbs idxAbs.toNat none).findIdx?
    (isWordEdge b.mUstrWork isRight)

theorem cursorJump_alike (h : SameMask b b') (hedge : b'.edgeRound key = b.edgeRound key) :
    b'.cursorJump key = b.cursorJump key := by
  unfold edgeRound at hedge
  unfold cursorJump
  rw [h.length, h.front] at *
  split
  · rfl
  · exact cursorJumpLoop_alike _ _ _ _ _ _ hedge

/-- The condition on the texts before a key: Ctrl-X throws for both or for none, and a word jump
finds its edge at the same place. -/
def KeyAlike (b b' : TextBox) (key : KeyUser) : Prop :=
  (key.eqCtrl keyCtrlX = true → CutAlike b b') ∧
  ((key.eqCtrl keyLeft || key.eqCtrl keyRight) = true → key.modCtrl = true →
    b'.edgeRound key = b.edgeRound key)

theorem navigateFront_alike (h : SameMask b b') (hkey : KeyAlike b b' key) :
    b'.navigateFront key = b.navigateFront key := by
  unfold navigateFront
  rw [h.front]
  split
  · rfl
  split
  · rfl
  split
  · next hjump =>
    rw [Bool.and_eq_true] at hjump
    rw [cursorJump_alike h (hkey.2 hjump.1 hjump.2)]
  · rfl

theorem navigate_masked (h : SameMask b b') (hkey : KeyAlike b b' key) :
    SameMask (b.navigate key).1 (b'.navigate key).1 ∧
      (b'.navigate key).2 = (b.navigate key).2 := by
  unfold navigate
  rw [navigateFront_alike h hkey]
  split
  · exact ⟨h, rfl⟩
  · split
    · exact ⟨h.edit h.length rfl h.back, rfl⟩
    · exact ⟨h.edit h.length rfl rfl, rfl⟩

theorem keyProcess_masked (h : SameMask b b') (hf : b.mFocus = true) (hkey : KeyAlike b b' key) :
    SameMask (b.keyProcess key).1 (b'.keyProcess key).1 := by
  have hclean : SameMask { b with mDirty := false } { b' with mDirty := false } :=
    ⟨h.rest, h.length⟩
  have hclean_alike : KeyAlike { b with mDirty := false } { b' with mDirty := false } key := hkey
  unfold keyProcess
  extract_lets c c'
  have hfocus : c'.mFocus = c.mFocus := hclean.focus
  split
  · next hx =>
    exact (keyCut_masked hclean hf (hclean_alike.1 hx)).mask
  split
  · exact keyCopy_masked hclean
  rw [hfocus]
  split
  · exact hclean
  split
  · exact keySelectAll_masked hclean
  obtain ⟨hnav, hchanged⟩ := navigate_masked hclean hclean_alike
  dsimp only
  rw [hchanged]
  split
  · exact hnav.edit hnav.length hnav.front hnav.back
  · exact (keyEdit_masked hnav key).mask

/-! ## What is printed -/

/-- Every position shows an asterisk or a blank. -/
theorem shownChar_masked (hf : b.mFocus = true) (hp : b.mPasswordMode = true) (idxAbs : Nat) :
    b.shownChar idxAbs = if idxAbs < b.mUstrWork.length then '*'.val else ' '.val := by
  unfold shownChar shown
  rw [hf, hp, if_pos rfl]
  dsimp only
  rw [Bool.true_and, List.length_append, List.length_singleton, Nat.add_sub_cancel]
  rcases Nat.lt_trichotomy idxAbs b.mUstrWork.length with hlt | heq | hgt
  · rw [if_neg (by omega), if_pos (decide_eq_true hlt), if_pos hlt]
  · subst heq
    rw [if_neg (by omega), decide_eq_false (Nat.lt_irrefl _), if_neg Bool.false_ne_true,
      if_neg (Nat.lt_irrefl _), charAt, List.getD_eq_getElem?_getD, List.getElem?_concat_length]
    rfl
  · rw [if_pos (by omega), if_neg (by omega)]

theorem cell_masked (h : SameMask b b') (hf : b.mFocus = true) (hp : b.mPasswordMode = true) :
    b'.cell = b.cell := by
  funext idxRel
  have hp' : b'.mPasswordMode = true := (congrArg mPasswordMode h.rest :).trans hp
  have hcursor : b'.mCursorShow = b.mCursorShow := (congrArg mCursorShow h.rest :)
  have hchar : b'.shownChar = b.shownChar := by
    funext idxAbs
    rw [shownChar_masked hf hp, shownChar_masked (h.focus.trans hf) hp', h.length]
  have hprint : b'.cursorPrint = b.cursorPrint := by
    funext idxAbs
    rw [cursorPrint, cursorPrint, h.focus, h.front, hcursor]
  rw [cell, cell, h.front, hchar, hprint]

theorem selectionPrint_masked (h : SameMask b b') : b'.selectionPrint = b.selectionPrint := by
  rw [selectionPrint, selectionPrint, h.focus, h.low, h.high]

theorem printCell_masked (h : SameMask b b') : b'.printCell m = b.printCell m := by
  funext ustrPrint c
  cases c with
  | mark ch => rfl
  | text idxAbs ch underlined =>
    unfold printCell
    rw [selectionPrint_masked h, h.low, h.high]

/-- Boxes with one mask cannot be told apart by what they print. -/
theorem print_masked (h : SameMask b b') (hf : b.mFocus = true) (hp : b.mPasswordMode = true) :
    b'.print m = b.print m := by
  have hframe : b'.mFrameEnabled = b.mFrameEnabled := (congrArg mFrameEnabled h.rest :)
  have hpadding : b'.mPaddingEnabled = b.mPaddingEnabled := (congrArg mPaddingEnabled h.rest :)
  unfold print
  rw [cell_masked h hf hp, printCell_masked h, selectionPrint_masked h, h.focus, h.front, h.low,
    hframe, hpadding]

/-- A key to both boxes. -/
def keyBoth (p : TextBox × TextBox) (key : KeyUser) : TextBox × TextBox :=
  (p.1.apply (.keyProcess key), p.2.apply (.keyProcess key))

/-- Two focused boxes in password mode with equal configuration, equal cursors and hidden texts of
equal length print the same after every key of a run whose keys all meet `KeyAlike`. -/
theorem masked_run (h : SameMask b b') (hf : b.mFocus = true) (hp : b.mPasswordMode = true)
    {p : TextBox × TextBox}
    (hr : Transition.Reachable (· = (b, b')) (Transition.guarded
      (fun p key => KeyAlike p.1 p.2 key) (Transition.ofFun keyBoth)) p) :
    p.2.print m = p.1.print m := by
  have hinv : SameMask p.1 p.2 ∧ p.1.mFocus = true ∧ p.1.mPasswordMode = true :=
    hr.invariant (P := fun p => SameMask p.1 p.2 ∧ p.1.mFocus = true ∧ p.1.mPasswordMode = true)
      (fun p hp' => by rw [hp']; exact ⟨h, hf, hp⟩) fun p key q hp' hstep => by
        obtain ⟨hmask, hfocus, hmode⟩ := hp'
        obtain ⟨hkey, rfl⟩ := hstep
        have he := keyProcess_edited hfocus key
        exact ⟨keyProcess_masked hmask hfocus hkey, he.focus.trans hfocus,
          (congrArg mPasswordMode he.config :).trans hmode⟩
  exact print_masked hinv.1 hinv.2.1 hinv.2.2

/-- A focused box in password mode, with the cursor behind the text. -/
def passwordBox (cs : List Char) : TextBox :=
  new.run [.passwordModeSet true, .currentSet (utf8Of cs), .focusSet true true]

def wordLeft : KeyUser := { KeyUser.ofCtrl keyLeft with mModCtrl := true }

theorem passwordBox_eq (cs : List Char) : passwordBox cs =
    let idx := (((ListIdx.winSet {} 10).sizeSet 1).assign (sizeToU32 ((cs.map Char.val).length + 1)))
    let idx := (idx.assign (sizeToU32 ((cs.map Char.val).length + 1))).cursorEndSet.1
    { mFocus := true, mPasswordMode := true, mCurrent := utf8Of cs, mUstrCurrent := cs.map Char.val,
      mUstrWork := cs.map Char.val, mIdxFront := idx, mIdxBack := idx } := by
  have hset : passwordBox cs =
      (((new.passwordModeSet true).currentSet (utf8Of cs)).1.focusSet true true).1 := rfl
  rw [hset, new_eq, currentSet, strToUtf_utf8Of]
  rfl

theorem passwordBox_mode (cs : List Char) :
    (passwordBox cs).mFocus = true ∧ (passwordBox cs).mPasswordMode = true := by
  rw [passwordBox_eq]
  exact ⟨rfl, rfl⟩

theorem passwordBox_sameMask {cs cs' : List Char} (h : cs'.length = cs.length) :
    SameMask (passwordBox cs) (passwordBox cs') := by
  rw [passwordBox_eq, passwordBox_eq, List.length_map, List.length_map, h]
  exact ⟨rfl, by rw [List.length_map, List.length_map, h]⟩

/-- Two passwords of two words each. -/
theorem masked_run_words :
    (keyBoth (passwordBox ['a', 'b', ' ', 'c', 'd'], passwordBox ['x', '1', ' ', 'z', '2'])
        wordLeft).2.print {} =
      (keyBoth (passwordBox ['a', 'b', ' ', 'c', 'd'], passwordBox ['x', '1', ' ', 'z', '2'])
        wordLeft).1.print {} := by
  have hmask : SameMask (passwordBox ['a', 'b', ' ', 'c', 'd'])
    (passwordBox ['x', '1', ' ', 'z', '2']) := passwordBox_sameMask rfl
  have halike : KeyAlike (passwordBox ['a', 'b', ' ', 'c', 'd'])
      (passwordBox ['x', '1', ' ', 'z', '2']) wordLeft := by
    refine ⟨fun hx => absurd hx (by decide), fun _ _ => ?_⟩
    rw [passwordBox_eq, passwordBox_eq]
    decide +kernel
  have hstart : Transition.Reachable (· = (passwordBox ['a', 'b', ' ', 'c', 'd'],
      passwordBox ['x', '1', ' ', 'z', '2'])) (Transition.guarded
      (fun p key => KeyAlike p.1 p.2 key) (Transition.ofFun keyBoth)) _ := .start rfl
  have hjumped := hstart.apply wordLeft halike
  obtain ⟨hfocus, hmode⟩ := passwordBox_mode ['a', 'b', ' ', 'c', 'd']
  exact masked_run hmask hfocus hmode hjumped

/-- The word jump stops at the blank of the first password. -/
theorem masked_run_fails :
    SameMask (passwordBox ['a', 'b', ' ', 'c', 'd']) (passwordBox ['a', 'b', 'c', 'd', 'e']) ∧
    (passwordBox ['a', 'b', ' ', 'c', 'd']).mFocus = true ∧
    (passwordBox ['a', 'b', ' ', 'c', 'd']).mPasswordMode = true ∧
    ((passwordBox ['a', 'b', 'c', 'd', 'e']).apply (.keyProcess wordLeft)).print {} ≠
      ((passwordBox ['a', 'b', ' ', 'c', 'd']).apply (.keyProcess wordLeft)).print {} := by
  obtain ⟨hfocus, hmode⟩ := passwordBox_mode ['a', 'b', ' ', 'c', 'd']
  refine ⟨passwordBox_sameMask rfl, hfocus, hmode, ?_⟩
  decide +kernel

end TextBox
end ProcessingCommon
