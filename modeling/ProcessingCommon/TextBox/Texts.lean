import ProcessingCommon.TextBox.Agreement

/-!
# What the calls do to the texts

A call that edits leaves the committed text alone and takes the code points of the new work text
from the old one or from what is inserted. This holds in every state, whatever the indexes are.
-/

namespace ProcessingCommon
namespace TextBox

variable {b b' b'' : TextBox} {ins ins' : U32String} {str : StdString} {key : KeyUser}

/-- The configuration: the box without texts, cursors and flag. -/
def config (b : TextBox) : TextBox :=
  { b with
    mCurrent := ByteArray.empty
    mUstrCurrent := []
    mUstrWork := []
    mClipboard := ByteArray.empty
    mIdxFront := {}
    mIdxBack := {}
    mDirty := false }

/-- The committed text stays, and only `ins` is new in the work text. -/
structure Edited (ins : U32String) (b b' : TextBox) : Prop where
  config : b'.config = b.config
  current : b'.mCurrent = b.mCurrent
  ustrCurrent : b'.mUstrCurrent = b.mUstrCurrent
  work : ∀ c ∈ b'.mUstrWork, c ∈ b.mUstrWork ∨ c ∈ ins

theorem Edited.focus (h : Edited ins b b') : b'.mFocus = b.mFocus :=
  (congrArg mFocus h.config :)

theorem Edited.numbersOnly (h : Edited ins b b') : b'.mNumbersOnly = b.mNumbersOnly :=
  (congrArg mNumbersOnly h.config :)

theorem Edited.refl (ins : U32String) (b : TextBox) : Edited ins b b :=
  ⟨rfl, rfl, rfl, fun _ => .inl⟩

theorem Edited.trans (h : Edited ins b b') (h' : Edited ins b' b'') : Edited ins b b'' where
  config := h'.config.trans h.config
  current := h'.current.trans h.current
  ustrCurrent := h'.ustrCurrent.trans h.ustrCurrent
  work c hc := by
    rcases h'.work c hc with hc | hc
    · exact h.work c hc
    · exact .inr hc

theorem Edited.subset (h : Edited ins b b') (hs : ins ⊆ ins') : Edited ins' b b' :=
  { h with work := fun c hc => (h.work c hc).imp id fun hi => hs hi }

/-- Nothing is inserted where the work text stays. -/
theorem Edited.of_same (hg : b'.config = b.config) (hc : b'.mCurrent = b.mCurrent)
    (hu : b'.mUstrCurrent = b.mUstrCurrent) (hw : b'.mUstrWork = b.mUstrWork) :
    Edited ins b b' :=
  ⟨hg, hc, hu, fun _ hm => .inl (hw ▸ hm)⟩

/-- An error leaves the box as the caller had it. -/
def EditedBy {α : Type} (ins : U32String) (b : TextBox) (r : Result α) : Prop := Edited ins b r.1

/-! ## Texts -/

theorem mem_eraseAt {s s' : U32String} {pos len : Nat} (h : eraseAt s pos len = .ok s') :
    ∀ c ∈ s', c ∈ s := by
  intro c hc
  rw [eraseAt] at h
  split at h
  · cases h
    rcases List.mem_append.mp hc with hc | hc
    · exact List.mem_of_mem_take hc
    · exact List.mem_of_mem_drop hc
  · cases h

theorem mem_insertAt {s s' t : U32String} {pos : Nat} (h : insertAt s pos t = .ok s') :
    ∀ c ∈ s', c ∈ s ∨ c ∈ t := by
  intro c hc
  rw [insertAt] at h
  split at h
  · cases h
    rcases List.mem_append.mp hc with hc | hc
    · rcases List.mem_append.mp hc with hc | hc
      · exact .inl (List.mem_of_mem_take hc)
      · exact .inr hc
    · exact .inl (List.mem_of_mem_drop hc)
  · cases h

/-! ## The selection -/

theorem clipboardSet_edited (b : TextBox) : EditedBy ins b b.clipboardSet := by
  rcases clipboardSet_cases b with ⟨str, hc, -⟩ | ⟨e, hc, -⟩
  · rw [EditedBy, hc]
    exact .of_same rfl rfl rfl rfl
  · rw [EditedBy, hc]
    exact .refl ins b

/-- What a focused box takes into the clipboard. -/
theorem clipboardSet_focused (hf : b.mFocus = true) : b.clipboardSet =
    if b.listIdxLow.cursorAbs.toNat ≤ b.mUstrWork.length then
      match utfToStr b.selected with
      | none => (b, .error .rangeError)
      | some str => ({ b with mClipboard := str }, .ok ())
    else (b, .error .outOfRange) := by
  rw [clipboardSet, if_neg (not_unfocused hf), substr]
  split_ifs <;> rfl

theorem selectionClear_edited (b : TextBox) : EditedBy ins b b.selectionClear := by
  rw [EditedBy, selectionClear]
  split
  · exact .refl ins b
  · next work hw => exact ⟨rfl, rfl, rfl, fun c hc => .inl (mem_eraseAt hw c hc)⟩

/-- The code points of `str` that `selectionInsert` inserts. -/
def fitting (b : TextBox) (str : StdString) : U32String :=
  let ustr := (strToUtf str).getD []
  ustr.take (sizeSub (min (b.mUstrWork.length + ustr.length) b.mLenMax) b.mUstrWork.length)

theorem selectionInsert_edited (b : TextBox) (str : StdString) :
    EditedBy (b.fitting str) b (b.selectionInsert str) := by
  unfold EditedBy selectionInsert fitting
  split
  · exact .refl _ b
  · next ustr hu =>
    rw [hu, Option.getD_some]
    dsimp only
    split
    · exact .refl _ b
    · next work hw => exact ⟨rfl, rfl, rfl, mem_insertAt hw⟩

/-- The code points of `str` that replace the selection. -/
def pasted (b : TextBox) (str : StdString) : U32String := b.selectionClear.1.fitting str

theorem selectionReplace_edited (b : TextBox) (str : StdString) :
    EditedBy (b.pasted str) b (b.selectionReplace str) := by
  have hclear : EditedBy (b.pasted str) b b.selectionClear := selectionClear_edited b
  unfold EditedBy pasted at *
  unfold selectionReplace
  split
  · next hc =>
    rw [hc] at hclear ⊢
    exact hclear
  · next hc =>
    rw [hc] at hclear ⊢
    exact hclear.trans (selectionInsert_edited _ str)

theorem pasted_subset (b : TextBox) (str : StdString) : b.pasted str ⊆ (strToUtf str).getD [] :=
  List.take_subset _ _

theorem dirtySet_edited (h : Edited ins b b') : EditedBy ins b b'.dirtySet :=
  h.trans (.of_same rfl rfl rfl rfl)

theorem replaceDirty_edited (b : TextBox) (h : (strToUtf str).getD [] ⊆ ins) :
    EditedBy ins b (b.replaceDirty str) := by
  have hreplace : EditedBy ins b (b.selectionReplace str) :=
    (selectionReplace_edited b str).subset fun c hc => h (pasted_subset b str hc)
  unfold EditedBy at *
  unfold replaceDirty
  split
  · next hr =>
    rw [hr] at hreplace
    exact hreplace
  · next hr =>
    rw [hr] at hreplace
    exact dirtySet_edited hreplace

/-- Nothing is decoded from nothing. -/
theorem strToUtf_empty_subset : (strToUtf ByteArray.empty).getD [] ⊆ ins := by
  rw [strToUtf_empty]
  exact List.nil_subset ins

/-! ## Keys -/

/-- The code point that a key inserts. -/
def typed (b : TextBox) (key : KeyUser) : U32String :=
  if key.isPrint && !(b.mNumbersOnly && (key.ltChar '0'.val || key.gtChar '9'.val)) then [key.mPrint]
  else []

theorem navigate_edited (b : TextBox) (key : KeyUser) : Edited ins b (b.navigate key).1 := by
  rw [navigate]
  split
  · exact .refl ins b
  · split <;> exact .of_same rfl rfl rfl rfl

theorem keyBackspaceProcess_edited (b : TextBox) : EditedBy ins b b.keyBackspaceProcess := by
  rw [EditedBy, keyBackspaceProcess]
  split
  · exact replaceDirty_edited b strToUtf_empty_subset
  · dsimp only
    split
    · exact .of_same rfl rfl rfl rfl
    · split
      · exact .of_same rfl rfl rfl rfl
      · next work hw => exact ⟨rfl, rfl, rfl, fun c hc => .inl (mem_eraseAt hw c hc)⟩

theorem keyDeleteProcess_edited (b : TextBox) : EditedBy ins b b.keyDeleteProcess := by
  rw [EditedBy, keyDeleteProcess]
  split
  · exact replaceDirty_edited b strToUtf_empty_subset
  · split
    · exact .refl ins b
    · dsimp only
      split
      · exact .of_same rfl rfl rfl rfl
      · split
        · exact .of_same rfl rfl rfl rfl
        · next work hw => exact ⟨rfl, rfl, rfl, fun c hc => .inl (mem_eraseAt hw c hc)⟩

theorem keyPrintProcess_edited (b : TextBox) (hp : key.isPrint = true) :
    EditedBy (b.typed key) b (b.keyPrintProcess key) := by
  rw [EditedBy, keyPrintProcess]
  split
  · exact .refl _ b
  · next hnum =>
    have htyped : b.typed key = [key.mPrint] := by
      rw [typed, hp, Bool.not_eq_true] at *
      rw [hnum]
      rfl
    rw [htyped]
    split
    · split
      · exact .refl _ b
      · next str hu =>
        refine replaceDirty_edited b ?_
        have hctrl : key.mIsCtrl = false := by
          have hk := key.kinds
          rw [show key.mIsPrint = true from hp, Bool.true_and] at hk
          exact hk
        rw [KeyUser.utf8, hctrl, if_neg Bool.false_ne_true] at hu
        rw [strToUtf_of_utfToStr hu]
        exact List.Subset.refl _
    · split
      · exact .refl _ b
      · split
        · exact .refl _ b
        · next work hw => exact ⟨rfl, rfl, rfl, mem_insertAt hw⟩

theorem keyEdit_edited (b : TextBox) (key : KeyUser) :
    EditedBy (b.typed key) b (b.keyEdit key) := by
  rw [EditedBy, keyEdit]
  split
  · exact keyBackspaceProcess_edited b
  · split
    · exact keyDeleteProcess_edited b
    · split
      · exact .refl _ b
      · next hp =>
        rw [Bool.not_eq_true', Bool.not_eq_false] at hp
        exact keyPrintProcess_edited b hp

theorem keyCut_edited (hf : b.mFocus = true) : EditedBy ins b b.keyCut := by
  have hclip : EditedBy ins b b.clipboardSet := clipboardSet_edited b
  rw [EditedBy] at hclip ⊢
  rw [keyCut]
  split
  · next hc =>
    rw [hc] at hclip
    exact hclip
  · next b' hc =>
    rw [hc] at hclip
    rw [show b'.mFocus = true from hclip.focus.trans hf]
    exact hclip.trans (replaceDirty_edited b' strToUtf_empty_subset)

theorem keyCopy_edited (b : TextBox) : EditedBy ins b b.keyCopy := by
  have hclip : EditedBy ins b b.clipboardSet := clipboardSet_edited b
  rw [EditedBy] at hclip ⊢
  rw [keyCopy]
  split
  · next hc =>
    rw [hc] at hclip
    exact hclip
  · next hc =>
    rw [hc] at hclip
    exact hclip

/-- A key in a focused box edits the work text. -/
theorem keyProcess_edited (hf : b.mFocus = true) (key : KeyUser) :
    EditedBy (b.typed key) b (b.keyProcess key) := by
  have hclean : Edited (b.typed key) b { b with mDirty := false } := .of_same rfl rfl rfl rfl
  refine hclean.trans ?_
  rw [keyProcess]
  dsimp only
  split
  · exact keyCut_edited hf
  split
  · exact keyCopy_edited _
  split
  · exact .refl _ _
  split
  · exact .of_same rfl rfl rfl rfl
  have hnav : Edited (b.typed key) _ (navigate { b with mDirty := false } key).1 :=
    navigate_edited _ key
  split
  · exact dirtySet_edited hnav
  · have htyped : typed (navigate { b with mDirty := false } key).1 key = b.typed key := by
      rw [typed, typed, hnav.numbersOnly]
    exact hnav.trans (htyped ▸ keyEdit_edited _ key)

/-- Without focus a key does nothing to the texts, but Ctrl-X clears the code points of
the committed one. -/
theorem keyProcess_unfocused (hf : b.mFocus = false) (key : KeyUser) :
    ∃ str dirty, (b.keyProcess key).1 = { b with
      mClipboard := str, mDirty := dirty
      mUstrCurrent := if key.eqCtrl keyCtrlX then [] else b.mUstrCurrent } := by
  rw [keyProcess]
  dsimp only
  split
  · simp only [keyCut, clipboardSet, hf, Bool.not_false, if_true]
    exact ⟨b.mCurrent, true, rfl⟩
  · split
    · simp only [keyCopy, clipboardSet, hf, Bool.not_false, if_true]
      exact ⟨b.mCurrent, false, rfl⟩
    · simp only [hf, Bool.not_false, if_true]
      exact ⟨b.mClipboard, false, rfl⟩

/-! ## The other calls -/

theorem paste_edited (hf : b.mFocus = true) (str : StdString) :
    EditedBy ((strToUtf str).getD []) b (b.paste str) := by
  rw [paste, hf]
  exact (selectionReplace_edited b str).subset (pasted_subset b str)

/-- The calls that have nothing to do with the texts. -/
def Op.isConfig : Op → Bool
  | .widthSet _ | .lenMaxSet _ | .cursorBoundSet _ | .passwordModeSet _ | .selectionSet _ _ => true
  | .frameEnabledSet _ | .paddingEnabledSet _ | .cursorShow _ | .dirty | .clipboard _ => true
  | _ => false

/-- All texts and what they depend on. -/
structure SameTexts (b b' : TextBox) : Prop where
  focus : b'.mFocus = b.mFocus
  current : b'.mCurrent = b.mCurrent
  ustrCurrent : b'.mUstrCurrent = b.mUstrCurrent
  work : b'.mUstrWork = b.mUstrWork
  numbersOnly : b'.mNumbersOnly = b.mNumbersOnly

theorem widthSet_sameTexts (b : TextBox) (width : UInt16) : SameTexts b (b.widthSet width) := by
  rw [widthSet]
  split <;> exact ⟨rfl, rfl, rfl, rfl, rfl⟩

theorem config_sameTexts (b : TextBox) {op : Op} (hop : op.isConfig = true) :
    SameTexts b (b.apply op) := by
  cases op with
  | widthSet width => exact widthSet_sameTexts b width
  | frameEnabledSet val =>
    obtain ⟨hf, hc, hu, hw, hn⟩ := widthSet_sameTexts { b with mFrameEnabled := val } b.mWidth
    exact ⟨hf, hc, hu, hw, hn⟩
  | paddingEnabledSet val =>
    obtain ⟨hf, hc, hu, hw, hn⟩ := widthSet_sameTexts { b with mPaddingEnabled := val } b.mWidth
    exact ⟨hf, hc, hu, hw, hn⟩
  | clipboard clear => cases clear <;> exact ⟨rfl, rfl, rfl, rfl, rfl⟩
  | focusSet | numbersOnlySet | currentSet | ustrWorkSet | paste | keyProcess => cases hop
  | _ => exact ⟨rfl, rfl, rfl, rfl, rfl⟩

theorem currentSet_config (b : TextBox) (str : StdString) :
    (b.currentSet str).1.config = b.config := by
  unfold currentSet
  extract_lets c
  split
  · rfl
  · dsimp only
    split <;> rfl

theorem focusSet_config (b : TextBox) (foc accept : Bool) :
    (b.focusSet foc accept).1.config = { b.config with mFocus := foc } := by
  cases foc with
  | true => rfl
  | false =>
    cases accept with
    | false => rfl
    | true =>
      simp only [focusSet, Bool.false_eq_true, if_false, if_true]
      split <;> rfl

/-- The other calls keep the configuration, but `focusSet` the focus. -/
theorem apply_config (b : TextBox) {op : Op} (hop : op.isConfig = false)
    (hn : ∀ only, op ≠ .numbersOnlySet only) :
    (b.apply op).config = { b.config with mFocus := (b.apply op).mFocus } := by
  have hof : ∀ b' : TextBox, b'.config = b.config →
      b'.config = { b.config with mFocus := b'.mFocus } := by
    intro b' h
    rw [← h]
    rfl
  cases op with
  | focusSet foc accept =>
    have hset := focusSet_config b foc accept
    have hfocus : (b.focusSet foc accept).1.mFocus = foc := (congrArg mFocus hset :)
    show (b.focusSet foc accept).1.config = _
    rw [hset]
    show _ = { b.config with mFocus := (b.focusSet foc accept).1.mFocus }
    rw [hfocus]
  | numbersOnlySet only => exact absurd rfl (hn only)
  | currentSet str => exact hof _ (currentSet_config b str)
  | ustrWorkSet ustr =>
    refine hof _ ?_
    show (b.ustrWorkSet ustr).config = b.config
    unfold ustrWorkSet
    extract_lets c
    split <;> rfl
  | paste str =>
    refine hof _ ?_
    cases hf : b.mFocus with
    | true => exact (paste_edited hf str).config
    | false =>
      show (b.paste str).1.config = b.config
      rw [paste, hf]
      exact currentSet_config b str
  | keyProcess key =>
    refine hof _ ?_
    cases hf : b.mFocus with
    | true => exact (keyProcess_edited hf key).config
    | false =>
      obtain ⟨clip, dirty, he⟩ := keyProcess_unfocused hf key
      show (b.keyProcess key).1.config = b.config
      rw [he]
      rfl
  | _ => cases hop

end TextBox
end ProcessingCommon
