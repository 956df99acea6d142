import ProcessingCommon.TextBox.Texts

/-!
# Boxes for numbers

`keyProcess` refuses every printable key that is no digit, and what replaces a selection has passed
that filter too. `paste` has no filter: it takes the string as it is.
-/

namespace ProcessingCommon
namespace TextBox

variable {b : TextBox} {op : Op} {ustr : U32String} {str : StdString}

/-- Only the characters `0` to `9`. -/
def Digits (ustr : U32String) : Prop := ∀ c ∈ ustr, '0'.val ≤ c ∧ c ≤ '9'.val

instance (ustr : U32String) : Decidable (Digits ustr) :=
  List.decidableBAll (fun c => '0'.val ≤ c ∧ c ≤ '9'.val) ustr

/-- The bytes of a text of digits. -/
def DigitText (str : StdString) : Prop := ∃ ustr, strToUtf str = some ustr ∧ Digits ustr

structure NumericTexts (b : TextBox) : Prop where
  work : Digits b.mUstrWork
  ustrCurrent : Digits b.mUstrCurrent
  current : DigitText b.mCurrent

/-- The calls of a box for numbers, and the condition on what is pasted: digits as far as it finds
room, or a text of digits if it becomes the committed one. -/
def NumericOk (b : TextBox) : Op → Prop
  | .numbersOnlySet only => only = true
  | .currentSet str => DigitText str
  | .ustrWorkSet ustr => Digits ustr
  | .paste str => if b.mFocus then Digits (b.pasted str) else DigitText str
  | _ => True

theorem Digits.isValidChar (h : Digits ustr) : Encodable ustr := by
  intro c hc
  obtain ⟨-, hle⟩ := h c hc
  exact .inl (Nat.lt_of_le_of_lt (UInt32.le_iff_toNat_le.mp hle) (by decide))

/-- The filter lets digits through. -/
theorem typed_digits (hn : b.mNumbersOnly = true) (key : KeyUser) : Digits (b.typed key) := by
  intro c hc
  unfold typed at hc
  split at hc
  · next hp =>
    rw [hn, Bool.true_and] at hp
    obtain rfl := List.mem_singleton.mp hc
    simp only [Bool.and_eq_true, KeyUser.isPrint, KeyUser.ltChar, KeyUser.gtChar] at hp
    simp only [hp.1, Bool.true_and, Bool.not_eq_true', Bool.or_eq_false_iff,
      decide_eq_false_iff_not, gt_iff_lt, UInt32.not_lt] at hp
    exact hp.2
  · cases hc

theorem NumericTexts.edited (h : b.NumericTexts) {b' : TextBox} (he : Edited ustr b b')
    (hins : Digits ustr) : b'.NumericTexts where
  work c hc := by
    rcases he.work c hc with hc | hc
    · exact h.work c hc
    · exact hins c hc
  ustrCurrent := by
    rw [he.ustrCurrent]
    exact h.ustrCurrent
  current := by
    rw [he.current]
    exact h.current

theorem NumericTexts.focusSet (h : b.NumericTexts) (foc accept : Bool) :
    (b.focusSet foc accept).1.NumericTexts := by
  cases foc with
  | true => exact ⟨h.ustrCurrent, h.ustrCurrent, h.current⟩
  | false =>
    simp only [TextBox.focusSet, Bool.false_eq_true, if_false]
    cases accept with
    | false => exact ⟨h.work, h.ustrCurrent, h.current⟩
    | true =>
      obtain ⟨str, hs⟩ := h.work.isValidChar.utfToStr
      simp only [if_true, hs]
      exact ⟨h.work, h.work, _, strToUtf_of_utfToStr hs, h.work⟩

theorem NumericTexts.currentSet (h : b.NumericTexts) (hs : DigitText str) :
    (b.currentSet str).1.NumericTexts := by
  obtain ⟨ustr, hu, hdigits⟩ := hs
  simp only [TextBox.currentSet, hu]
  split
  · exact ⟨h.work, hdigits, ustr, hu, hdigits⟩
  · exact ⟨h.work, hdigits, ustr, hu, hdigits⟩

theorem NumericTexts.ustrWorkSet (h : b.NumericTexts) (hu : Digits ustr) :
    (b.ustrWorkSet ustr).NumericTexts := by
  unfold TextBox.ustrWorkSet
  extract_lets c
  split
  · exact ⟨hu, h.ustrCurrent, h.current⟩
  · exact ⟨hu, h.ustrCurrent, h.current⟩

theorem NumericTexts.paste (h : b.NumericTexts)
    (hs : if b.mFocus then Digits (b.pasted str) else DigitText str) :
    (b.paste str).1.NumericTexts := by
  unfold TextBox.paste
  cases hf : b.mFocus with
  | true =>
    rw [hf, if_pos rfl] at hs
    exact h.edited (selectionReplace_edited b str) hs
  | false =>
    rw [hf, if_neg Bool.false_ne_true] at hs
    exact h.currentSet hs

theorem NumericTexts.keyProcess (h : b.NumericTexts) (hn : b.mNumbersOnly = true)
    (key : KeyUser) : (b.keyProcess key).1.NumericTexts := by
  cases hf : b.mFocus with
  | true => exact h.edited (keyProcess_edited hf key) (typed_digits hn key)
  | false =>
    obtain ⟨clip, dirty, he⟩ := keyProcess_unfocused hf key
    rw [he]
    refine ⟨h.work, ?_, h.current⟩
    show Digits (if _ then _ else _)
    split
    · intro c hc
      cases hc
    · exact h.ustrCurrent

/-- The filter stays on. -/
theorem apply_numbersOnly (hn : b.mNumbersOnly = true) (hop : b.NumericOk op) :
    (b.apply op).mNumbersOnly = true := by
  cases hconfig : op.isConfig with
  | true => exact (config_sameTexts b hconfig).numbersOnly.trans hn
  | false =>
    by_cases hset : ∃ only, op = .numbersOnlySet only
    · obtain ⟨only, rfl⟩ := hset
      exact hop
    · have hc := apply_config b hconfig fun only h => hset ⟨only, h⟩
      exact (congrArg mNumbersOnly hc :).trans hn

theorem NumericTexts.apply (h : b.NumericTexts) (hn : b.mNumbersOnly = true)
    (hop : b.NumericOk op) : (b.apply op).NumericTexts := by
  by_cases hconfig : op.isConfig = true
  · have he := config_sameTexts b hconfig
    exact ⟨he.work ▸ h.work, he.ustrCurrent ▸ h.ustrCurrent, he.current ▸ h.current⟩
  cases op with
  | numbersOnlySet only => exact ⟨h.work, h.ustrCurrent, h.current⟩
  | currentSet str => exact h.currentSet hop
  | ustrWorkSet ustr => exact h.ustrWorkSet hop
  | focusSet foc accept => exact h.focusSet foc accept
  | paste str => exact h.paste hop
  | keyProcess key => exact h.keyProcess hn key
  | _ => exact absurd rfl hconfig

/-- After `numbersOnlySet(true)` on a box with numbers, every run whose calls all meet `NumericOk`
keeps to digits. -/
theorem numeric_run
    (h : Transition.Reachable (fun b => ∃ c : TextBox, c.NumericTexts ∧ b = c.numbersOnlySet true)
      (Transition.guarded NumericOk (Transition.ofFun apply)) b) :
    Digits b.ustrWork ∧ Digits b.mUstrCurrent ∧ DigitText b.current := by
  have hinv : b.mNumbersOnly = true ∧ b.NumericTexts := by
    refine h.invariant (P := fun b => b.mNumbersOnly = true ∧ b.NumericTexts) (fun s hs => ?_)
      fun s op t hs ht => ?_
    · obtain ⟨c, hc, rfl⟩ := hs
      exact ⟨rfl, hc.work, hc.ustrCurrent, hc.current⟩
    · obtain ⟨hop, rfl⟩ := ht
      exact ⟨apply_numbersOnly hs.1 hop, hs.2.apply hs.1 hop⟩
  exact ⟨hinv.2.work, hinv.2.ustrCurrent, hinv.2.current⟩

theorem new_numericTexts : new.NumericTexts := by
  rw [new_eq]
  exact ⟨fun c hc => (nomatch hc), fun c hc => (nomatch hc), [], strToUtf_empty,
    fun c hc => (nomatch hc)⟩

/-- A new box for numbers in which a digit is typed and a digit is pasted. -/
theorem numeric_run_typed :
    Digits ((((new.numbersOnlySet true).apply (.focusSet true true)).apply
      (.keyProcess (.ofChar 52))).apply (.paste (utf8Of ['2']))).ustrWork := by
  have hstart : Transition.Reachable
      (fun b => ∃ c : TextBox, c.NumericTexts ∧ b = c.numbersOnlySet true)
      (Transition.guarded NumericOk (Transition.ofFun apply)) (new.numbersOnlySet true) :=
    .start ⟨new, new_numericTexts, rfl⟩
  have hfocused := hstart.apply (Op.focusSet true true) trivial
  have htyped := hfocused.apply (Op.keyProcess (.ofChar 52)) trivial
  have hpasted := htyped.apply (.paste (utf8Of ['2'])) (by
    have hdigit : Digits ((strToUtf (utf8Of ['2'])).getD []) := by
      rw [strToUtf_utf8Of]
      decide
    rw [NumericOk]
    split
    · exact fun c hc => hdigit c (pasted_subset _ _ hc)
    · exact ⟨_, strToUtf_utf8Of ['2'], by decide⟩)
  exact (numeric_run hpasted).1

/-- A letter is pasted into a new box for numbers. -/
theorem numeric_run_fails :
    ¬ Digits ((((new.numbersOnlySet true).apply (.focusSet true true)).apply
      (.paste (utf8Of ['a']))).ustrWork) := by
  have hwork : (((new.numbersOnlySet true).apply (.focusSet true true)).apply
      (.paste (utf8Of ['a']))).ustrWork = ['a'.val] := by
    rw [new_eq]
    decide +kernel
  rw [hwork]
  decide

end TextBox
end ProcessingCommon
