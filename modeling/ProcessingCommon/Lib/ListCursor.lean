import Mathlib.Tactic.Common

/-!
# A cursor in a list

The abstract view of every list cursor: a number of items and a position that
is below it. An empty list has position `0`. Nothing is said about windows or
scrolling; a view that shows part of the list is a refinement of this.
-/

/-- A position in a list of `size` items. -/
@[ext] structure ListCursor where
  size : Nat
  pos : Nat
  inRange : pos < max size 1

namespace ListCursor

variable {c : ListCursor}

theorem pos_le_pred (c : ListCursor) : c.pos ≤ c.size - 1 := by
  have := c.inRange
  omega

/-- The list gets `n` items; the cursor stays where it is if there is an item. -/
def resize (c : ListCursor) (n : Nat) : ListCursor :=
  ⟨n, min c.pos (n - 1), by omega⟩

/-- `n` items forward, as far as there are items. -/
def forward (c : ListCursor) (n : Nat) : ListCursor :=
  ⟨c.size, min (c.pos + n) (c.size - 1), by omega⟩

/-- `n` items back, as far as there are items. -/
def back (c : ListCursor) (n : Nat) : ListCursor :=
  ⟨c.size, c.pos - n, by have := c.inRange; omega⟩

def next (c : ListCursor) : ListCursor := c.forward 1
def prev (c : ListCursor) : ListCursor := c.back 1
def first (c : ListCursor) : ListCursor := ⟨c.size, 0, by omega⟩
def last (c : ListCursor) : ListCursor := ⟨c.size, c.size - 1, by omega⟩

/-- The item at the cursor is removed; its successor takes its place. -/
def eraseCurr (c : ListCursor) : ListCursor := c.resize (c.size - 1)

/-- The item before the cursor is removed. -/
def erasePrev (c : ListCursor) : ListCursor := c.prev.resize (c.size - 1)

/-- Whether the cursor is on another item than before. -/
def moved (c c' : ListCursor) : Bool := c.pos != c'.pos

@[simp] theorem resize_size (n : Nat) : (c.resize n).size = n := rfl
@[simp] theorem resize_pos (n : Nat) : (c.resize n).pos = min c.pos (n - 1) := rfl
@[simp] theorem forward_size (n : Nat) : (c.forward n).size = c.size := rfl
@[simp] theorem forward_pos (n : Nat) : (c.forward n).pos = min (c.pos + n) (c.size - 1) := rfl

@[simp] theorem back_pos (n : Nat) : (c.back n).pos = c.pos - n := rfl
@[simp] theorem next_size : c.next.size = c.size := rfl
@[simp] theorem next_pos : c.next.pos = min (c.pos + 1) (c.size - 1) := rfl
@[simp] theorem prev_size : c.prev.size = c.size := rfl
@[simp] theorem prev_pos : c.prev.pos = c.pos - 1 := rfl

@[simp] theorem first_pos : c.first.pos = 0 := rfl

@[simp] theorem last_pos : c.last.pos = c.size - 1 := rfl

@[simp] theorem moved_iff {c c' : ListCursor} : moved c c' = true ↔ c.pos ≠ c'.pos := by
  simp [moved]

/-- Single steps add up. -/
theorem forward_forward (m n : Nat) : (c.forward m).forward n = c.forward (m + n) := by
  ext
  · rfl
  · simp only [forward_pos, forward_size]
    omega

theorem back_back (m n : Nat) : (c.back m).back n = c.back (m + n) := by
  ext
  · rfl
  · simp only [back_pos]
    omega

theorem forward_zero : c.forward 0 = c := by
  ext
  · rfl
  · have := c.pos_le_pred
    simp only [forward_pos]
    omega

end ListCursor
