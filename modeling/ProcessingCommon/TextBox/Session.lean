import ProcessingCommon.TextBox.Texts

/-!
# Edit sessions

Between `focusSet(true)` and `focusSet(false, accept)` only the work text is edited. The end of a
session takes the work text as it is, also where there was no session: `focusSet(false)` does not
ask for the focus it takes away.
-/

namespace ProcessingCommon
namespace TextBox

variable {b : TextBox} {op : Op}

/-- The calls between the two of `focusSet`. -/
def Op.inSession : Op → Bool
  | .focusSet _ _ | .currentSet _ => false
  | _ => true

/-- A call of a session keeps the focus and the committed text. -/
theorem apply_inSession (hf : b.mFocus = true) (hop : op.inSession = true) :
    (b.apply op).mFocus = true ∧ (b.apply op).mCurrent = b.mCurrent := by
  by_cases hconfig : op.isConfig = true
  · have he := config_sameTexts b hconfig
    exact ⟨he.focus.trans hf, he.current⟩
  cases op with
  | focusSet | currentSet => cases hop
  | numbersOnlySet only => exact ⟨hf, rfl⟩
  | ustrWorkSet ustr =>
    change (b.ustrWorkSet ustr).mFocus = true ∧ (b.ustrWorkSet ustr).mCurrent = b.mCurrent
    rw [ustrWorkSet]
    split <;> exact ⟨hf, rfl⟩
  | paste str =>
    have he := paste_edited hf str
    exact ⟨he.focus.trans hf, he.current⟩
  | keyProcess key =>
    have he := keyProcess_edited hf key
    exact ⟨he.focus.trans hf, he.current⟩
  | _ => exact absurd rfl hconfig

theorem run_inSession {ops : List Op} (hops : ∀ op ∈ ops, op.inSession = true)
    (hf : b.mFocus = true) : (b.run ops).mFocus = true ∧ (b.run ops).mCurrent = b.mCurrent := by
  induction ops generalizing b with
  | nil => exact ⟨hf, rfl⟩
  | cons op ops ih =>
    obtain ⟨hf', hc'⟩ := apply_inSession hf (hops op List.mem_cons_self)
    obtain ⟨hf'', hc''⟩ := ih (fun op' h => hops op' (List.mem_cons_of_mem _ h)) hf'
    exact ⟨hf'', hc''.trans hc'⟩

/-- Taking the focus away commits the work text, or keeps the committed one. -/
theorem focusSet_current (b : TextBox) :
    (b.apply (.focusSet false false)).current = b.current ∧
      ∀ str, utfToStr b.ustrWork = some str → (b.apply (.focusSet false true)).current = str := by
  refine ⟨rfl, fun str hs => ?_⟩
  rw [ustrWork] at hs
  simp only [apply, step, focusSet, Bool.false_eq_true, if_false, if_true, hs]
  rfl

/-- A session commits the UTF-8 form of its final work text or cancels; without focus
`focusSet(false, false)` changes nothing, and `focusSet(false, true)` commits the work text
that is there. -/
theorem session (b : TextBox) :
    (∀ ops : List Op, (∀ op ∈ ops, op.inSession = true) → ∀ accept : Bool,
      ((((b.apply (.focusSet true accept)).run ops).apply (.focusSet false false)).current =
        b.current) ∧
      ∀ str, utfToStr ((b.apply (.focusSet true accept)).run ops).ustrWork = some str →
        (((b.apply (.focusSet true accept)).run ops).apply (.focusSet false true)).current = str) ∧
    (b.mFocus = false → (b.apply (.focusSet false false)).current = b.current ∧
      ∀ str, utfToStr b.ustrWork = some str →
        (b.apply (.focusSet false true)).current = str) := by
  refine ⟨fun ops hops accept => ?_, fun _ => focusSet_current b⟩
  obtain ⟨hcancel, hcommit⟩ := focusSet_current ((b.apply (.focusSet true accept)).run ops)
  obtain ⟨-, hcurrent⟩ := run_inSession (b := b.apply (.focusSet true accept)) hops rfl
  exact ⟨hcancel.trans hcurrent, hcommit⟩

/-- The letter `a` is typed, and committed or cancelled. -/
theorem session_typed :
    (((new.apply (.focusSet true true)).run [.keyProcess (.ofChar 97)]).apply
      (.focusSet false true)).current = utf8Of ['a'] ∧
    (((new.apply (.focusSet true true)).run [.keyProcess (.ofChar 97)]).apply
      (.focusSet false false)).current = new.current := by
  obtain ⟨hcancel, hcommit⟩ := (session new).1 [.keyProcess (.ofChar 97)] (by decide) true
  have hwork : ((new.apply (.focusSet true true)).run [.keyProcess (.ofChar 97)]).ustrWork =
      ['a'].map Char.val := by
    rw [new_eq]
    decide
  exact ⟨hcommit _ (by rw [hwork, utfToStr_map_val]), hcancel⟩

/-- The committed text is lost when the box gives away a focus that it does not have. -/
theorem session_fails :
    (new.run [.currentSet (utf8Of ['a'])]).mFocus = false ∧
    ((new.run [.currentSet (utf8Of ['a'])]).apply (.focusSet false true)).current ≠
      (new.run [.currentSet (utf8Of ['a'])]).current := by
  have hbox : (new.run [.currentSet (utf8Of ['a'])]).mFocus = false ∧
      (new.run [.currentSet (utf8Of ['a'])]).ustrWork = [].map Char.val ∧
      (new.run [.currentSet (utf8Of ['a'])]).current = utf8Of ['a'] := by
    change (new.currentSet _).1.mFocus = _ ∧ (new.currentSet _).1.ustrWork = _ ∧
      (new.currentSet _).1.current = _
    rw [new_eq, currentSet, strToUtf_utf8Of]
    exact ⟨rfl, rfl, rfl⟩
  obtain ⟨hfocus, hwork, hcurrent⟩ := hbox
  have hlost := (focusSet_current _).2 (utf8Of []) (by rw [hwork, utfToStr_map_val])
  refine ⟨hfocus, fun h => ?_⟩
  have hsame := congrArg strToUtf (hlost.symm.trans (h.trans hcurrent))
  rw [strToUtf_utf8Of, strToUtf_utf8Of] at hsame
  cases hsame

end TextBox
end ProcessingCommon
