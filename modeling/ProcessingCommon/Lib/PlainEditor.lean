import ProcessingCommon.Lib.ListCursor

/-!
# A plain editor

What a text field with a cursor does, and nothing about how it is shown: a text, a position in
it, and the three edits at that position. The positions of the text are a `ListCursor` with one
item more than the text has.
-/

/-- A text with a cursor, which stands before an item or behind the last one. -/
@[ext] structure PlainEditor (α : Type*) where
  text : List α
  cursor : Nat
  cursor_le : cursor ≤ text.length

namespace PlainEditor

variable {α : Type*} {e : PlainEditor α}

/-- `a` is put before the cursor. -/
def insert (e : PlainEditor α) (a : α) : PlainEditor α where
  text := e.text.take e.cursor ++ [a] ++ e.text.drop e.cursor
  cursor := e.cursor + 1
  cursor_le := by
    have := e.cursor_le
    simp only [List.length_append, List.length_take, List.length_singleton]
    omega

/-- The item before the cursor is removed. -/
def backspace (e : PlainEditor α) : PlainEditor α :=
  if 0 < e.cursor then
    { text := e.text.take (e.cursor - 1) ++ e.text.drop e.cursor
      cursor := e.cursor - 1
      cursor_le := by
        have := e.cursor_le
        simp only [List.length_append, List.length_take]
        omega }
  else e

/-- The item at the cursor is removed. -/
def delete (e : PlainEditor α) : PlainEditor α :=
  if h : e.cursor < e.text.length then
    { text := e.text.take e.cursor ++ e.text.drop (e.cursor + 1)
      cursor := e.cursor
      cursor_le := by
        simp only [List.length_append, List.length_take]
        omega }
  else e

/-- The cursor among the positions of the text. -/
def position (e : PlainEditor α) : ListCursor where
  size := e.text.length + 1
  pos := e.cursor
  inRange := by
    have := e.cursor_le
    omega

@[simp] theorem position_size : e.position.size = e.text.length + 1 := rfl

@[simp] theorem position_pos : e.position.pos = e.cursor := rfl

/-! ## The edits on the positions -/

theorem insert_length (a : α) : (e.insert a).text.length = e.text.length + 1 := by
  have := e.cursor_le
  simp only [insert, List.length_append, List.length_take, List.length_singleton, List.length_drop]
  omega

theorem backspace_length (h : 0 < e.cursor) : e.backspace.text.length = e.text.length - 1 := by
  have := e.cursor_le
  rw [backspace, if_pos h]
  simp only [List.length_append, List.length_take, List.length_drop]
  omega

theorem delete_length (h : e.cursor < e.text.length) :
    e.delete.text.length = e.text.length - 1 := by
  rw [delete, dif_pos h]
  simp only [List.length_append, List.length_take, List.length_drop]
  omega

/-- A new item is a new position, and the cursor moves behind it. -/
theorem insert_position (a : α) :
    (e.insert a).position = (e.position.resize (e.position.size + 1)).next := by
  have := e.cursor_le
  ext
  · simp only [position_size, insert_length, ListCursor.next_size, ListCursor.resize_size]
  · simp only [position_pos, position_size, ListCursor.next_pos, ListCursor.resize_pos,
      ListCursor.resize_size, insert]
    omega

theorem backspace_position (h : 0 < e.cursor) : e.backspace.position = e.position.erasePrev := by
  have := e.cursor_le
  ext
  · simp only [position_size, backspace_length h, ListCursor.erasePrev, ListCursor.resize_size]
    omega
  · simp only [position_pos, position_size, ListCursor.erasePrev, ListCursor.resize_pos,
      ListCursor.prev_pos, backspace, if_pos h]
    omega

theorem delete_position (h : e.cursor < e.text.length) :
    e.delete.position = e.position.eraseCurr := by
  ext
  · simp only [position_size, delete_length h, ListCursor.eraseCurr, ListCursor.resize_size]
    omega
  · simp only [position_pos, position_size, ListCursor.eraseCurr, ListCursor.resize_pos, delete,
      dif_pos h]
    omega

/-! ## An edit and its inverse -/

theorem insert_backspace (e : PlainEditor α) (a : α) : (e.insert a).backspace = e := by
  have hpos : 0 < (e.insert a).cursor := Nat.succ_pos e.cursor
  have hlen : (e.text.take e.cursor).length = e.cursor := List.length_take_of_le e.cursor_le
  rw [backspace, if_pos hpos]
  ext1
  · simp only [insert, Nat.add_sub_cancel]
    rw [List.append_assoc, List.take_left' hlen, ← List.append_assoc,
      List.drop_left' (by rw [List.length_append, hlen, List.length_singleton]),
      List.take_append_drop]
  · exact Nat.add_sub_cancel e.cursor 1

end PlainEditor
