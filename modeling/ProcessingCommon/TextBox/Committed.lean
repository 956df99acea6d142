import ProcessingCommon.TextBox.Texts

/-!
# The views of the committed text

The committed text is kept as bytes, as code points and as the size of two indexes. Ctrl-X without
focus clears the code points only. `sizeDisplayed` counts the bytes of the committed text, which
are its characters as long as all of them are ASCII.
-/

namespace ProcessingCommon

/-- One byte a character is what ASCII has. -/
theorem size_utf8Of_eq_length (cs : List Char) :
    (utf8Of cs).size = cs.length ↔ ∀ c ∈ cs.map Char.val, c ≤ 127 := by
  have hsize : ∀ cs : List Char, (utf8Of cs).size = (cs.map Char.utf8Size).sum := by
    intro cs
    induction cs with
    | nil => rfl
    | cons c cs ih =>
      rw [utf8Of, String.toByteArray_ofList] at ih ⊢
      rw [List.utf8Encode_cons, ByteArray.size_append, ih, List.map_cons, List.sum_cons]
      simp [List.utf8Encode_singleton]
  have hle : ∀ cs : List Char, cs.length ≤ (cs.map Char.utf8Size).sum := by
    intro cs
    induction cs with
    | nil => exact Nat.le_refl 0
    | cons c cs ih =>
      have hpos := c.utf8Size_pos
      rw [List.map_cons, List.sum_cons, List.length_cons]
      omega
  rw [hsize]
  induction cs with
  | nil => exact iff_of_true rfl fun c hc => absurd hc List.not_mem_nil
  | cons c cs ih =>
    have hpos := c.utf8Size_pos
    have hrest := hle cs
    rw [List.map_cons, List.sum_cons, List.length_cons, List.map_cons, List.forall_mem_cons,
      ← Char.utf8Size_eq_one_iff]
    constructor
    · intro heq
      exact ⟨by omega, ih.mp (by omega)⟩
    · rintro ⟨hone, hcs⟩
      have hlen := ih.mpr hcs
      omega

namespace TextBox

variable {b : TextBox} {op : Op} {str : StdString} {ustr : U32String}

/-- The arguments are well-formed texts. -/
def ArgOk : Op → Prop
  | .currentSet str | .paste str => (strToUtf str).isSome = true
  | .ustrWorkSet ustr => Encodable ustr
  | .keyProcess key => key.isPrint = true → key.mPrint.isValidChar
  | _ => True

/-- The condition on the state before a call and its arguments: the text that a box has without
focus fits the indexes, and Ctrl-X has nothing to cut there. -/
def CommitOk (b : TextBox) : Op → Prop
  | .currentSet str | .paste str => b.mFocus = false → TextOk str
  | .focusSet foc accept => foc = false →
    (if accept then b.mUstrWork else b.mUstrCurrent).length + 1 < 2 ^ 32
  | .keyProcess key => b.mFocus = false → key.eqCtrl keyCtrlX = true → b.mUstrCurrent = []
  | _ => True

/-- The invariant: the sizes of the indexes belong to the committed text only without focus. -/
structure Committed (b : TextBox) : Prop where
  encodes : utfToStr b.mUstrCurrent = some b.mCurrent
  work : Encodable b.mUstrWork
  sizes : b.mFocus = false → b.mUstrCurrent.length + 1 < 2 ^ 32 ∧
    b.mIdxFront.mSize = sizeToU32 (b.mUstrCurrent.length + 1) ∧
    b.mIdxBack.mSize = sizeToU32 (b.mUstrCurrent.length + 1)

theorem Committed.encodable (h : b.Committed) : Encodable b.mUstrCurrent := by
  obtain ⟨cs, hcs, -⟩ := utfToStr_some h.encodes
  rw [hcs]
  exact encodable_map_val cs

/-- A focused box is edited with well-formed text. -/
theorem Committed.edited (h : b.Committed) (hf : b.mFocus = true) {b' : TextBox}
    (he : Edited ustr b b') (hins : Encodable ustr) : b'.Committed where
  encodes := by rw [he.ustrCurrent, he.current]; exact h.encodes
  work c hc := by
    rcases he.work c hc with hc | hc
    · exact h.work c hc
    · exact hins c hc
  sizes hf' := nomatch hf.symm.trans (he.focus.symm.trans hf')

/-! ## The calls -/

/-- Both indexes have this size. -/
def Sized (b : TextBox) (size : UInt32) : Prop :=
  b.mIdxFront.mSize = size ∧ b.mIdxBack.mSize = size

theorem Sized.widthSet {size : UInt32} (h : b.Sized size) (width : UInt16) :
    (b.widthSet width).Sized size := by
  rw [TextBox.widthSet]
  split
  · exact h
  · exact ⟨(ListIdx.winSet_mSize _ _).trans h.1, (ListIdx.winSet_mSize _ _).trans h.2⟩

theorem Sized.selectionSet {size : UInt32} (h : b.Sized size) (idxStart len : UInt16) :
    (b.selectionSet idxStart len).Sized size := by
  unfold TextBox.selectionSet
  extract_lets str idxEnd idxMax idxFront idxStart' idxFront' idxBack idxEnd' idxFront''
  have hm : ListIdx.Moved b.mIdxFront idxFront' :=
    (ListIdx.reset_moved _).trans (ListIdx.iterate_inc_moved _ _)
  have hm' : ListIdx.Moved b.mIdxFront idxFront'' := hm.trans (ListIdx.iterate_inc_moved _ _)
  exact ⟨hm'.same.size.trans h.1, hm.same.size.trans h.1⟩

/-- The calls that have nothing to do with the texts keep the sizes. -/
theorem Sized.config {size : UInt32} (h : b.Sized size) (hop : op.isConfig = true) :
    (b.apply op).Sized size := by
  cases op with
  | widthSet width => exact h.widthSet width
  | frameEnabledSet val => exact widthSet (b := { b with mFrameEnabled := val }) h _
  | paddingEnabledSet val => exact widthSet (b := { b with mPaddingEnabled := val }) h _
  | cursorBoundSet bnd =>
    exact ⟨(ListIdx.cursorBoundSet_frame _ _).2.trans h.1,
      (ListIdx.cursorBoundSet_frame _ _).2.trans h.2⟩
  | selectionSet idxStart len => exact h.selectionSet idxStart len
  | clipboard clear => cases clear <;> exact h
  | focusSet | numbersOnlySet | currentSet | ustrWorkSet | paste | keyProcess => cases hop
  | _ => exact h

theorem Committed.config (h : b.Committed) (hop : op.isConfig = true) : (b.apply op).Committed := by
  have he := config_sameTexts b hop
  refine ⟨?_, ?_, fun hf => ?_⟩
  · rw [he.ustrCurrent, he.current]
    exact h.encodes
  · rw [he.work]
    exact h.work
  · obtain ⟨hlen, hsizes⟩ := h.sizes (he.focus.symm.trans hf)
    rw [he.ustrCurrent]
    exact ⟨hlen, Sized.config hsizes hop⟩

theorem Committed.focusSet (h : b.Committed) {foc accept : Bool}
    (hw : foc = false → (if accept then b.mUstrWork else b.mUstrCurrent).length + 1 < 2 ^ 32) :
    (b.focusSet foc accept).1.Committed := by
  cases foc with
  | true => exact ⟨h.encodes, h.encodable, fun hf => nomatch hf⟩
  | false =>
    simp only [TextBox.focusSet, Bool.false_eq_true, if_false]
    cases accept with
    | false =>
      exact ⟨h.encodes, h.work, fun _ =>
        ⟨hw rfl, ListIdx.sizeSet_mSize _ _, ListIdx.sizeSet_mSize _ _⟩⟩
    | true =>
      obtain ⟨str, hs⟩ := h.work.utfToStr
      simp only [if_true, hs]
      exact ⟨hs, h.work, fun _ =>
        ⟨hw rfl, ListIdx.sizeSet_mSize _ _, ListIdx.sizeSet_mSize _ _⟩⟩

theorem Committed.currentSet (h : b.Committed) (ha : (strToUtf str).isSome = true)
    (ht : b.mFocus = false → TextOk str) : (b.currentSet str).1.Committed := by
  obtain ⟨ustr, hu⟩ := Option.isSome_iff_exists.mp ha
  simp only [TextBox.currentSet, hu]
  split
  · next hf =>
    exact ⟨utfToStr_of_strToUtf hu, h.work, fun hf' => by cases hf.symm.trans hf'⟩
  · next hf =>
    exact ⟨utfToStr_of_strToUtf hu, h.work, fun _ => ⟨ht (Bool.eq_false_iff.mpr hf) ustr hu,
      ListIdx.sizeSet_mSize _ _, (ListIdx.sizeSet_mSize _ _).trans (ListIdx.sizeSet_mSize _ _)⟩⟩

theorem Committed.ustrWorkSet (h : b.Committed) (ha : Encodable ustr) :
    (b.ustrWorkSet ustr).Committed := by
  rw [TextBox.ustrWorkSet]
  split
  · exact ⟨h.encodes, ha, h.sizes⟩
  · next hf => exact ⟨h.encodes, ha, fun hf' => absurd (by rw [hf']; rfl) hf⟩

theorem Committed.keyProcess (h : b.Committed) {key : KeyUser}
    (ha : key.isPrint = true → key.mPrint.isValidChar)
    (hx : b.mFocus = false → key.eqCtrl keyCtrlX = true → b.mUstrCurrent = []) :
    (b.keyProcess key).1.Committed := by
  cases hf : b.mFocus with
  | true =>
    refine h.edited hf (keyProcess_edited hf key) fun c hc => ?_
    rw [typed] at hc
    split at hc
    · next hp =>
      rw [List.mem_singleton.mp hc]
      exact ha (Bool.and_eq_true_iff.mp hp).1
    · cases hc
  | false =>
    obtain ⟨clip, dirty, he⟩ := keyProcess_unfocused hf key
    have hsame : (if key.eqCtrl keyCtrlX = true then [] else b.mUstrCurrent) = b.mUstrCurrent := by
      split
      · next hk => exact (hx hf hk).symm
      · rfl
    rw [he, hsame]
    exact ⟨h.encodes, h.work, fun _ => h.sizes hf⟩

theorem Committed.apply (h : b.Committed) (ha : ArgOk op) (hop : b.CommitOk op) :
    (b.apply op).Committed := by
  by_cases hconfig : op.isConfig = true
  · exact h.config hconfig
  cases op with
  | focusSet foc accept => exact h.focusSet hop
  | numbersOnlySet only => exact ⟨h.encodes, h.work, h.sizes⟩
  | currentSet str => exact h.currentSet ha hop
  | ustrWorkSet ustr => exact h.ustrWorkSet ha
  | paste str =>
    cases hf : b.mFocus with
    | true =>
      obtain ⟨ustr, hu⟩ := Option.isSome_iff_exists.mp ha
      refine h.edited hf (paste_edited hf str) ?_
      obtain ⟨cs, -, rfl⟩ := strToUtf_some hu
      rw [hu]
      exact encodable_map_val cs
    | false =>
      change (b.paste str).1.Committed
      rw [paste, hf]
      exact h.currentSet ha hop
  | keyProcess key => exact h.keyProcess ha hop
  | _ => exact absurd rfl hconfig

theorem new_committed : new.Committed := by
  rw [new_eq]
  exact ⟨utfToStr_map_val [], fun c hc => (nomatch hc), fun _ => ⟨by decide, rfl, rfl⟩⟩

/-- In every run whose calls meet `CommitOk`, the bytes are the UTF-8 form of the code points, the
indexes of a box without focus count its positions, and `sizeDisplayed` is the number of
characters that are shown exactly while all of them are ASCII. -/
theorem committed_views
    (h : Transition.Reachable (· = new) (Transition.guarded
      (fun b op => ArgOk op ∧ b.CommitOk op) (Transition.ofFun apply)) b) :
    utfToStr b.mUstrCurrent = some b.mCurrent ∧
    (b.mFocus = false → b.mIdxFront.size.toNat = b.mUstrCurrent.length + 1 ∧
      b.mIdxBack.size.toNat = b.mUstrCurrent.length + 1 ∧
      (b.sizeDisplayed = b.shown.length ↔ ∀ c ∈ b.mUstrCurrent, c ≤ 127)) := by
  have hc : b.Committed := h.invariant (fun _ hs => by rw [hs]; exact new_committed)
    fun s op t hs ht => by
      obtain ⟨⟨ha, hop⟩, rfl⟩ := ht
      exact hs.apply ha hop
  refine ⟨hc.encodes, fun hf => ?_⟩
  obtain ⟨hlen, hfront, hback⟩ := hc.sizes hf
  have hlen := sizeToU32_succ hlen
  refine ⟨(congrArg UInt32.toNat hfront).trans hlen, (congrArg UInt32.toNat hback).trans hlen, ?_⟩
  obtain ⟨cs, hcs, hbytes⟩ := utfToStr_some hc.encodes
  rw [sizeDisplayed, shown, hf, if_neg Bool.false_ne_true, if_neg Bool.false_ne_true, hcs, hbytes,
    List.length_map]
  exact size_utf8Of_eq_length cs

/-- A text of two characters and three bytes. -/
theorem committed_views_set :
    utfToStr (new.apply (.currentSet (utf8Of ['a', 'ä']))).mUstrCurrent =
      some (new.apply (.currentSet (utf8Of ['a', 'ä']))).mCurrent ∧
    (new.apply (.currentSet (utf8Of ['a', 'ä']))).mIdxFront.size.toNat = 3 := by
  have hu := strToUtf_utf8Of ['a', 'ä']
  have hstart : Transition.Reachable (· = new) (Transition.guarded
      (fun b op => ArgOk op ∧ b.CommitOk op) (Transition.ofFun apply)) new := .start rfl
  have hset := hstart.apply (.currentSet (utf8Of ['a', 'ä'])) (by
    refine ⟨by rw [ArgOk, hu]; rfl, fun _ ustr hustr => ?_⟩
    obtain rfl := Option.some.inj (hu.symm.trans hustr)
    decide)
  obtain ⟨hbytes, hsizes⟩ := committed_views hset
  have hbox : (new.apply (.currentSet (utf8Of ['a', 'ä']))).mFocus = false ∧
      (new.apply (.currentSet (utf8Of ['a', 'ä']))).mUstrCurrent = ['a', 'ä'].map Char.val := by
    change (new.currentSet _).1.mFocus = _ ∧ (new.currentSet _).1.mUstrCurrent = _
    rw [new_eq, currentSet, hu]
    exact ⟨rfl, rfl⟩
  refine ⟨hbytes, (hsizes hbox.1).1.trans ?_⟩
  rw [hbox.2]
  rfl

/-- Ctrl-X without focus leaves the bytes of the text whose code points it clears, and a box
that shows one character has two as its `sizeDisplayed`. -/
theorem committed_views_fails :
    utfToStr (new.run [.currentSet (utf8Of ['a']), .keyProcess (.ofCtrl keyCtrlX)]).mUstrCurrent ≠
      some (new.run [.currentSet (utf8Of ['a']), .keyProcess (.ofCtrl keyCtrlX)]).mCurrent ∧
    (new.run [.currentSet (utf8Of ['ä'])]).mFocus = false ∧
    (new.run [.currentSet (utf8Of ['ä'])]).sizeDisplayed = 2 ∧
    (new.run [.currentSet (utf8Of ['ä'])]).shown.length = 1 := by
  have hset (c : Char) : new.run [.currentSet (utf8Of [c])] =
      (new.currentSet (utf8Of [c])).1 := rfl
  have hcut : new.run [.currentSet (utf8Of ['a']), .keyProcess (.ofCtrl keyCtrlX)] =
      ((new.currentSet (utf8Of ['a'])).1.keyProcess (.ofCtrl keyCtrlX)).1 := rfl
  rw [hset, hcut, new_eq, currentSet, currentSet, strToUtf_utf8Of, strToUtf_utf8Of]
  refine ⟨fun h => ?_, rfl, rfl, rfl⟩
  have hcleared : utfToStr [] = some (utf8Of ['a']) := h
  have hdecoded := strToUtf_of_utfToStr hcleared
  rw [strToUtf_utf8Of] at hdecoded
  cases hdecoded

end TextBox
end ProcessingCommon
