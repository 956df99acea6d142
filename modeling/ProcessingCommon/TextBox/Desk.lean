import ProcessingCommon.Lib.SelectionEditor
import ProcessingCommon.Lib.Transition
import ProcessingCommon.TextBox.WordJump

/-!
# What the editor is for

The purpose of the box, stated without its indexes: a text with a selection, a clipboard, and what
each key and each paste do to them. Nothing here has a window, an offset or a size that is counted
apart from the text.
-/

namespace ProcessingCommon

/-- What a user works on. -/
structure Desk where
  lenMax : Nat
  numbersOnly : Bool
  editor : SelectionEditor Char32
  clipboard : StdString

/-- What a user does in a focused box. -/
inductive Input
  | key (key : KeyUser)
  | paste (str : StdString)

namespace TextBox

instance (work : U32String) (isRight : Bool) : DecidablePred (WordEdge work isRight) :=
  fun _ => inferInstanceAs (Decidable (_ ∧ _ ∧ _ ∧ _))

/-- Where a jump over words ends. -/
def wordTarget (work : U32String) (isRight : Bool) (c : Nat) : Nat :=
  if isRight then searchAbove (WordEdge work true) (work.length - c) c
  else searchBelow (WordEdge work false) c

/-- A jump stays in the text. -/
theorem JumpTarget.le {work : U32String} {isRight : Bool} {c p : Nat}
    (h : JumpTarget work isRight c p) (hc : c ≤ work.length) : p ≤ work.length := by
  cases isRight with
  | false =>
    rcases h with ⟨⟨hlt, -⟩, -⟩ | ⟨-, rfl⟩
    · exact Nat.le_trans (Nat.le_of_lt hlt) hc
    · exact Nat.zero_le _
  | true =>
    rcases h with ⟨⟨-, hedge⟩, -⟩ | ⟨-, rfl⟩
    · exact Nat.le_of_lt hedge.2.1
    · exact Nat.le_refl _

/-- There is one place where a jump can end. -/
theorem JumpTarget.eq_wordTarget {work : U32String} {isRight : Bool} {c p : Nat}
    (h : JumpTarget work isRight c p) (hc : c ≤ work.length) : p = wordTarget work isRight c := by
  cases isRight with
  | false => exact NearestBelow.unique h searchBelow_nearest
  | true =>
    have hsum : c + (work.length - c) = work.length := Nat.add_sub_cancel' hc
    have hsearch := searchAbove_nearest (E := WordEdge work true) (c := c) (work.length - c)
      fun q hq => le_of_le_of_eq (Nat.le_of_lt hq.2.1) hsum.symm
    rw [hsum] at hsearch
    exact NearestAbove.unique h hsearch

end TextBox

namespace Desk

open TextBox (isNavigation wordTarget)

/-- The position that a navigation key asks for. -/
def target (e : SelectionEditor Char32) (key : KeyUser) : Nat :=
  if key.eqCtrl keyHome then 0
  else if key.eqCtrl keyEnd then e.text.length
  else if (key.eqCtrl keyLeft || key.eqCtrl keyRight) && key.modCtrl then
    wordTarget e.text (key.eqCtrl keyRight) e.cursor
  else if key.eqCtrl keyLeft || key.eqCtrl keyUp then e.cursor - 1
  else if key.eqCtrl keyRight || key.eqCtrl keyDown then e.cursor + 1
  else if key.eqCtrl keyPgUp then e.cursor - dDefaultSizeJump.toNat
  else e.cursor + dDefaultSizeJump.toNat

/-- The key is a character for the text. -/
def accepts (d : Desk) (key : KeyUser) : Bool :=
  key.isPrint && !(d.numbersOnly && (key.ltChar '0'.val || key.gtChar '9'.val))

/-- A character is taken as it is, but to replace a selection it has to be a Unicode scalar
value. -/
def type (d : Desk) (c : Char32) : Desk × Except Exn Unit :=
  if d.editor.anchor ≠ d.editor.cursor ∧ utfToStr [c] = none then (d, .error .rangeError)
  else ({ d with editor := d.editor.insertUpTo d.lenMax [c] }, .ok ())

/-- The selection goes to the clipboard; `editor` is what becomes of the text. -/
def take (d : Desk) (editor : SelectionEditor Char32) : Desk × Except Exn Unit :=
  match utfToStr d.editor.selected with
  | none => (d, .error .rangeError)
  | some str => ({ d with editor := editor, clipboard := str }, .ok ())

def press (d : Desk) (key : KeyUser) : Desk × Except Exn Unit :=
  if key.eqCtrl keyCtrlX then d.take (d.editor.replace [])
  else if key.eqCtrl keyCtrlC then d.take d.editor
  else if key.eqCtrl keyCtrlA then ({ d with editor := d.editor.selectAll }, .ok ())
  else if isNavigation key then
    ({ d with editor := d.editor.moveTo key.modShift (target d.editor key) }, .ok ())
  else if keyIsBackspace key then ({ d with editor := d.editor.backspace }, .ok ())
  else if key.eqCtrl keyDelete then ({ d with editor := d.editor.delete }, .ok ())
  else if d.accepts key then d.type key.mPrint
  else (d, .ok ())

/-- The selection is gone also where the new text is no UTF-8. -/
def paste (d : Desk) (str : StdString) : Desk × Except Exn Unit :=
  match strToUtf str with
  | none => ({ d with editor := d.editor.replace [] }, .error .rangeError)
  | some ustr => ({ d with editor := d.editor.insertUpTo d.lenMax ustr }, .ok ())

def input (d : Desk) : Input → Desk × Except Exn Unit
  | .key key => d.press key
  | .paste str => d.paste str

/-! ## What every input keeps -/

variable {d d' : Desk} {key : KeyUser} {n : Nat}

/-- The configuration stays, and a text that keeps the limit keeps it. -/
structure Within (d d' : Desk) : Prop where
  lenMax : d'.lenMax = d.lenMax
  numbersOnly : d'.numbersOnly = d.numbersOnly
  length_le : d.editor.text.length ≤ d.lenMax → d'.editor.text.length ≤ d.lenMax

theorem Within.refl (d : Desk) : Within d d := ⟨rfl, rfl, id⟩

theorem within_of_le {e : SelectionEditor Char32} {clip : StdString}
    (h : e.text.length ≤ d.editor.text.length) :
    Within d { d with editor := e, clipboard := clip } :=
  ⟨rfl, rfl, Nat.le_trans h⟩

theorem within_insertUpTo (d : Desk) (ustr : U32String) :
    Within d { d with editor := d.editor.insertUpTo d.lenMax ustr } :=
  ⟨rfl, rfl, fun h => d.editor.insertUpTo_length h ustr⟩

theorem take_within {e : SelectionEditor Char32} (h : e.text.length ≤ d.editor.text.length) :
    Within d (d.take e).1 := by
  unfold take
  split
  · exact .refl d
  · exact within_of_le h

theorem type_within (d : Desk) (c : Char32) : Within d (d.type c).1 := by
  unfold type
  split
  · exact .refl d
  · exact within_insertUpTo d [c]

theorem press_within (d : Desk) (key : KeyUser) : Within d (d.press key).1 := by
  unfold press
  split
  · exact take_within d.editor.replace_nil_length
  split
  · exact take_within (Nat.le_refl _)
  split
  · exact within_of_le (Nat.le_refl _)
  split
  · exact within_of_le (Nat.le_refl _)
  split
  · exact within_of_le d.editor.backspace_length
  split
  · exact within_of_le d.editor.delete_length
  split
  · exact type_within d key.mPrint
  · exact .refl d

theorem paste_within (d : Desk) (str : StdString) : Within d (d.paste str).1 := by
  unfold paste
  split
  · exact within_of_le d.editor.replace_nil_length
  · exact within_insertUpTo d _

/-! ## Typing and pasting -/

theorem press_of_accepts (h : d.accepts key = true) : d.press key = d.type key.mPrint := by
  have hp : key.isPrint = true := (Bool.and_eq_true_iff.mp h).1
  have hctrl : ∀ c, ¬ key.eqCtrl c = true := KeyUser.eqCtrl_of_isPrint hp
  have hnav : ¬ isNavigation key = true := by
    rw [isNavigation, List.any_eq_true]
    rintro ⟨c, -, hc⟩
    exact hctrl c hc
  rw [press, if_neg (hctrl _), if_neg (hctrl _), if_neg (hctrl _), if_neg hnav,
    if_neg (not_keyIsBackspace (hctrl _) (hctrl _)), if_neg (hctrl _), if_pos h]

theorem type_char (d : Desk) (c : Char) :
    d.type c.val = ({ d with editor := d.editor.insertUpTo d.lenMax [c.val] }, .ok ()) := by
  have hutf : utfToStr [c.val] = some (utf8Of [c]) := utfToStr_map_val [c]
  rw [type, hutf, if_neg fun hno => nomatch hno.2]

/-- The keys for a text. -/
def typing (cs : List Char) : List Input := cs.map fun c => .key (.ofChar c.val)

theorem final_typing (cs : List Char) (hacc : ∀ c ∈ cs, d.accepts (.ofChar c.val) = true) :
    Transition.final input d (typing cs) =
      { d with
        editor := (cs.map Char.val).foldl (fun e c => e.insertUpTo d.lenMax [c]) d.editor } := by
  induction cs generalizing d with
  | nil => rfl
  | cons c cs ih =>
    have hfirst : d.input (.key (.ofChar c.val)) =
        ({ d with editor := d.editor.insertUpTo d.lenMax [c.val] }, .ok ()) :=
      (press_of_accepts (hacc c List.mem_cons_self)).trans (d.type_char c)
    show Transition.final input (d.input (.key (.ofChar c.val))).1 (typing cs) = _
    rw [hfirst]
    exact ih fun c' hc' => hacc c' (List.mem_cons_of_mem _ hc')

/-- A text can be typed or pasted. -/
theorem final_typing_paste {cs : List Char} (hne : cs ≠ [])
    (hacc : ∀ c ∈ cs, d.accepts (.ofChar c.val) = true) :
    Transition.final input d (typing cs) = (d.paste (utf8Of cs)).1 := by
  obtain ⟨c, cs, rfl⟩ := List.exists_cons_of_ne_nil hne
  have hcut : ∀ ustr, (d.editor.replace []).insertUpTo d.lenMax ustr =
      d.editor.insertUpTo d.lenMax ustr := by
    intro ustr
    have hnil : d.editor.insertUpTo d.lenMax [] = d.editor.replace [] := by
      rw [SelectionEditor.insertUpTo, List.take_nil]
    exact hnil ▸ d.editor.insertUpTo_insertUpTo d.lenMax [] ustr
  have hitems : ((c :: cs).map Char.val).foldl (fun e c => e.insertUpTo d.lenMax [c]) d.editor =
      d.editor.insertUpTo d.lenMax ((c :: cs).map Char.val) := by
    rw [← SelectionEditor.foldl_insertUpTo, List.map_cons, List.foldl_cons, List.foldl_cons, hcut]
  rw [final_typing _ hacc, paste, strToUtf_utf8Of, hitems]

/-- What was cut out has room where it came from. -/
theorem take_paste {str : StdString} (hl : d.editor.text.length ≤ d.lenMax)
    (hs : utfToStr d.editor.selected = some str) :
    (d.take (d.editor.replace [])).1.paste str =
      ({ d with editor := d.editor.replace d.editor.selected, clipboard := str }, .ok ()) := by
  have hrest := d.editor.rest_length
  have hroom : d.editor.selected.take (d.lenMax - (d.editor.replace []).rest.length) =
      d.editor.selected := by
    refine List.take_of_length_le ?_
    rw [SelectionEditor.replace_rest, SelectionEditor.replace_length, List.length_nil,
      SelectionEditor.selected_length]
    omega
  have hput : (d.editor.replace []).insertUpTo d.lenMax d.editor.selected =
      d.editor.replace d.editor.selected := by
    rw [SelectionEditor.insertUpTo, hroom, SelectionEditor.replace_replace, List.nil_append]
  simp only [take, hs, paste, strToUtf_of_utfToStr hs, hput]

end Desk
end ProcessingCommon
