import ProcessingCommon.Lib.PlainEditor

/-!
# An editor with a selection

A text with a cursor and an anchor; what lies between the two is selected. There is one edit, the
replacement of the selection, and it leaves the cursor and the anchor behind what was put in. An
insertion under a limit, an erasure to one side and a cut are cases of it.
-/

/-- Cursor and anchor stand before an item or behind the last one. -/
@[ext] structure SelectionEditor (α : Type*) where
  text : List α
  anchor : Nat
  cursor : Nat
  anchor_le : anchor ≤ text.length
  cursor_le : cursor ≤ text.length

namespace SelectionEditor

variable {α : Type*} {e : SelectionEditor α}

def low (e : SelectionEditor α) : Nat := min e.anchor e.cursor

def high (e : SelectionEditor α) : Nat := max e.anchor e.cursor

theorem low_le_high (e : SelectionEditor α) : e.low ≤ e.high :=
  Nat.le_trans (Nat.min_le_left _ _) (Nat.le_max_left _ _)

theorem high_le (e : SelectionEditor α) : e.high ≤ e.text.length :=
  Nat.max_le.mpr ⟨e.anchor_le, e.cursor_le⟩

def selected (e : SelectionEditor α) : List α := (e.text.drop e.low).take (e.high - e.low)

/-- The text without the selection. -/
def rest (e : SelectionEditor α) : List α := e.text.take e.low ++ e.text.drop e.high

/-! ## Edits -/

/-- `as` takes the place of the selection, and nothing is selected afterwards. -/
def replace (e : SelectionEditor α) (as : List α) : SelectionEditor α where
  text := e.text.take e.low ++ as ++ e.text.drop e.high
  anchor := e.low + as.length
  cursor := e.low + as.length
  anchor_le := by
    have := e.low_le_high
    have := e.high_le
    simp only [List.length_append, List.length_take]
    omega
  cursor_le := by
    have := e.low_le_high
    have := e.high_le
    simp only [List.length_append, List.length_take]
    omega

/-- As much of `as` as a text of `n` items has room for takes the place of the selection. -/
def insertUpTo (e : SelectionEditor α) (n : Nat) (as : List α) : SelectionEditor α :=
  e.replace (as.take (n - e.rest.length))

/-- The cursor goes to `p`, or to the end of the text; the anchor stays where it is if the
selection is to be extended. -/
def moveTo (e : SelectionEditor α) (extend : Bool) (p : Nat) : SelectionEditor α where
  text := e.text
  anchor := if extend then e.anchor else min p e.text.length
  cursor := min p e.text.length
  anchor_le := by
    split
    · exact e.anchor_le
    · exact Nat.min_le_right _ _
  cursor_le := Nat.min_le_right _ _

def selectAll (e : SelectionEditor α) : SelectionEditor α where
  text := e.text
  anchor := 0
  cursor := e.text.length
  anchor_le := Nat.zero_le _
  cursor_le := Nat.le_refl _

/-- The selection is erased, or else the item before the cursor. -/
def backspace (e : SelectionEditor α) : SelectionEditor α :=
  if e.anchor = e.cursor then (e.moveTo true (e.cursor - 1)).replace [] else e.replace []

/-- The selection is erased, or else the item at the cursor. -/
def delete (e : SelectionEditor α) : SelectionEditor α :=
  if e.anchor = e.cursor then (e.moveTo true (e.cursor + 1)).replace [] else e.replace []

/-! ## Lengths -/

theorem length_take_low (e : SelectionEditor α) : (e.text.take e.low).length = e.low :=
  List.length_take_of_le (Nat.le_trans e.low_le_high e.high_le)

theorem rest_length (e : SelectionEditor α) : e.rest.length + (e.high - e.low) = e.text.length := by
  have := e.low_le_high
  have := e.high_le
  rw [rest, List.length_append, length_take_low, List.length_drop]
  omega

theorem replace_length (e : SelectionEditor α) (as : List α) :
    (e.replace as).text.length = e.rest.length + as.length := by
  simp only [replace, rest, List.length_append]
  omega

/-- An erasure does not make the text longer. -/
theorem replace_nil_length (e : SelectionEditor α) :
    (e.replace []).text.length ≤ e.text.length := by
  have := e.rest_length
  rw [replace_length, List.length_nil]
  omega

theorem backspace_length (e : SelectionEditor α) : e.backspace.text.length ≤ e.text.length := by
  rw [backspace]
  split
  · exact (e.moveTo true (e.cursor - 1)).replace_nil_length
  · exact e.replace_nil_length

theorem delete_length (e : SelectionEditor α) : e.delete.text.length ≤ e.text.length := by
  rw [delete]
  split
  · exact (e.moveTo true (e.cursor + 1)).replace_nil_length
  · exact e.replace_nil_length

/-- A text within the limit stays within the limit. -/
theorem insertUpTo_length {n : Nat} (h : e.text.length ≤ n) (as : List α) :
    (e.insertUpTo n as).text.length ≤ n := by
  have := e.rest_length
  rw [insertUpTo, replace_length, List.length_take]
  omega

/-! ## How edits compose -/

theorem replace_text (as : List α) :
    (e.replace as).text = e.text.take e.low ++ as ++ e.text.drop e.high := rfl

theorem replace_cursor (as : List α) : (e.replace as).cursor = e.low + as.length := rfl

@[simp] theorem replace_low (as : List α) : (e.replace as).low = e.low + as.length :=
  Nat.min_self _

@[simp] theorem replace_high (as : List α) : (e.replace as).high = e.low + as.length :=
  Nat.max_self _

theorem take_replace (as : List α) :
    (e.replace as).text.take (e.low + as.length) = e.text.take e.low ++ as :=
  List.take_left' (by rw [List.length_append, length_take_low])

theorem drop_replace (as : List α) :
    (e.replace as).text.drop (e.low + as.length) = e.text.drop e.high :=
  List.drop_left' (by rw [List.length_append, length_take_low])

theorem replace_rest (as : List α) : (e.replace as).rest = (e.replace as).text := by
  rw [rest, replace_low, replace_high, List.take_append_drop]

/-- Two edits in a row put in both texts. -/
theorem replace_replace (as bs : List α) : (e.replace as).replace bs = e.replace (as ++ bs) := by
  have hcursor : e.low + as.length + bs.length = e.low + (as ++ bs).length := by
    rw [List.length_append, Nat.add_assoc]
  ext1
  · rw [replace_text bs, replace_low, replace_high, take_replace, drop_replace, replace_text,
      List.append_assoc (e.text.take e.low)]
  · show (e.replace as).low + bs.length = _
    rw [replace_low]
    exact hcursor
  · show (e.replace as).low + bs.length = _
    rw [replace_low]
    exact hcursor

/-- Where nothing is selected, nothing put in changes nothing. -/
theorem replace_nil (h : e.anchor = e.cursor) : e.replace [] = e := by
  have hlow : e.low = e.cursor := by rw [low, h, Nat.min_self]
  have hhigh : e.high = e.cursor := by rw [high, h, Nat.max_self]
  ext1
  · simp only [replace, hlow, hhigh, List.append_nil, List.take_append_drop]
  · simp only [replace, hlow, List.length_nil, Nat.add_zero, h]
  · simp only [replace, hlow, List.length_nil, Nat.add_zero]

/-- Under a limit, too, it does not matter in how many parts a text comes. -/
theorem insertUpTo_insertUpTo (n : Nat) (as bs : List α) :
    (e.insertUpTo n as).insertUpTo n bs = e.insertUpTo n (as ++ bs) := by
  have hroom : n - (e.rest.length + min (n - e.rest.length) as.length) =
      n - e.rest.length - as.length := by omega
  rw [insertUpTo, insertUpTo, replace_rest, replace_length, replace_replace, List.length_take, hroom,
    ← List.take_append, ← insertUpTo]

/-- A text that comes item by item. -/
theorem foldl_insertUpTo (n : Nat) (as : List α) :
    as.foldl (fun e a => e.insertUpTo n [a]) (e.replace []) = e.insertUpTo n as := by
  have hgo : ∀ as bs : List α, bs.foldl (fun e a => e.insertUpTo n [a]) (e.insertUpTo n as) =
      e.insertUpTo n (as ++ bs) := by
    intro as bs
    induction bs generalizing as with
    | nil => rw [List.append_nil, List.foldl_nil]
    | cons b bs ih =>
      rw [List.foldl_cons, insertUpTo_insertUpTo, ih, List.append_assoc, List.singleton_append]
  have hnil : e.replace [] = e.insertUpTo n [] := by rw [insertUpTo, List.take_nil]
  rw [hnil, hgo, List.nil_append]

/-! ## An edit and its inverse -/

/-- What was cut out and put back. -/
theorem replace_selected (e : SelectionEditor α) : (e.replace e.selected).text = e.text := by
  have hsplit : e.text.drop e.high = (e.text.drop e.low).drop (e.high - e.low) := by
    rw [List.drop_drop, Nat.add_sub_cancel' e.low_le_high]
  rw [replace_text, selected, hsplit, List.append_assoc, List.take_append_drop,
    List.take_append_drop]

theorem selected_length (e : SelectionEditor α) : e.selected.length = e.high - e.low := by
  have := e.high_le
  rw [selected, List.length_take, List.length_drop]
  omega

/-! ## Without a selection -/

/-- A plain editor is one in which nothing is selected. -/
def ofPlain (p : PlainEditor α) : SelectionEditor α :=
  ⟨p.text, p.cursor, p.cursor, p.cursor_le, p.cursor_le⟩

variable {p : PlainEditor α}

@[simp] theorem ofPlain_low : (ofPlain p).low = p.cursor := Nat.min_self _

@[simp] theorem ofPlain_high : (ofPlain p).high = p.cursor := Nat.max_self _

theorem ofPlain_backspace : (ofPlain p).backspace = ofPlain p.backspace := by
  have hle := p.cursor_le
  have hlow : ((ofPlain p).moveTo true (p.cursor - 1)).low = p.cursor - 1 := by
    show min p.cursor (min (p.cursor - 1) p.text.length) = p.cursor - 1
    omega
  have hhigh : ((ofPlain p).moveTo true (p.cursor - 1)).high = p.cursor := by
    show max p.cursor (min (p.cursor - 1) p.text.length) = p.cursor
    omega
  rw [backspace, if_pos (show (ofPlain p).anchor = (ofPlain p).cursor from rfl)]
  by_cases hpos : 0 < p.cursor
  · rw [PlainEditor.backspace, if_pos hpos]
    ext1
    · rw [replace_text, List.append_nil]
      exact congr (congrArg _ (congrArg (p.text.take ·) hlow)) (congrArg (p.text.drop ·) hhigh)
    · exact hlow
    · exact hlow
  · -- at the start the cursor stays, and nothing is between it and the anchor
    have hzero : p.cursor = 0 := Nat.eq_zero_of_not_pos hpos
    have hstay : (ofPlain p).moveTo true (p.cursor - 1) = ofPlain p := by
      ext1
      · rfl
      · rfl
      · show min (p.cursor - 1) p.text.length = p.cursor
        omega
    rw [PlainEditor.backspace, if_neg hpos]
    exact (congrArg (replace · []) hstay).trans (replace_nil rfl)

theorem ofPlain_delete : (ofPlain p).delete = ofPlain p.delete := by
  rw [delete, if_pos (show (ofPlain p).anchor = (ofPlain p).cursor from rfl)]
  by_cases hlt : p.cursor < p.text.length
  · have hlow : ((ofPlain p).moveTo true (p.cursor + 1)).low = p.cursor := by
      show min p.cursor (min (p.cursor + 1) p.text.length) = p.cursor
      omega
    have hhigh : ((ofPlain p).moveTo true (p.cursor + 1)).high = p.cursor + 1 := by
      show max p.cursor (min (p.cursor + 1) p.text.length) = p.cursor + 1
      omega
    rw [PlainEditor.delete, dif_pos hlt]
    ext1
    · rw [replace_text, List.append_nil]
      exact congr (congrArg _ (congrArg (p.text.take ·) hlow)) (congrArg (p.text.drop ·) hhigh)
    · exact hlow
    · exact hlow
  · -- so it is at the end
    have hle := p.cursor_le
    have hstay : (ofPlain p).moveTo true (p.cursor + 1) = ofPlain p := by
      ext1
      · rfl
      · rfl
      · show min (p.cursor + 1) p.text.length = p.cursor
        omega
    rw [PlainEditor.delete, dif_neg hlt]
    exact (congrArg (replace · []) hstay).trans (replace_nil rfl)

/-- A single item is put in as long as there is room for it. -/
theorem ofPlain_insertUpTo (n : Nat) (a : α) : (ofPlain p).insertUpTo n [a] =
    ofPlain (if p.text.length < n then p.insert a else p) := by
  have hrest : (ofPlain p).rest.length = p.text.length := by
    have := (ofPlain p).rest_length
    rw [ofPlain_low, ofPlain_high, Nat.sub_self] at this
    exact this
  rw [insertUpTo, hrest]
  split
  · next hlt =>
    have hone : [a].take (n - p.text.length) = [a] := List.take_of_length_le (Nat.sub_pos_of_lt hlt)
    rw [hone]
    ext1
    · rw [replace_text, ofPlain_low, ofPlain_high]
      rfl
    · exact congrArg (· + 1) ofPlain_low
    · exact congrArg (· + 1) ofPlain_low
  · next hge =>
    rw [Nat.sub_eq_zero_of_le (Nat.not_lt.mp hge), List.take_zero]
    exact replace_nil rfl

end SelectionEditor
