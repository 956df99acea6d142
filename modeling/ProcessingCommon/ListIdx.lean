import Mathlib.Algebra.Group.Nat.Defs
import ProcessingCommon.KeyUser

/-!
# The windowed list index (`ListIdx.h`, `ListIdx.cpp`)

A `ListIdx` is the cursor of a list of which only a window is shown: `mOffset`
is the first shown item, `mCursor` the cursor relative to it. Everything is
`uint32_t`, so additions and subtractions wrap.
-/

namespace ProcessingCommon

def dMinSizeJump : UInt16 := 1
def dDefaultSizeJump : UInt32 := 3

structure ListIdx where
  mWin : UInt32 := 0
  mSize : UInt32 := 0
  mSizeJump : UInt32 := dDefaultSizeJump
  mCursor : UInt32 := 0
  mOffset : UInt32 := 0
  mCursorLbound : UInt32 := 0
  mCursorUbound : UInt32 := 0
deriving DecidableEq

namespace ListIdx

/-- The last position of the window that shows an item, as computed by four of
the functions below. -/
def hardUbound (x : ListIdx) : UInt32 :=
  (if x.mWin < x.mSize then x.mWin else x.mSize) - 1

/-- First half of `sanityCheck`: a scrolled view must not end behind the list. -/
def offsetCheck (x : ListIdx) : ListIdx :=
  if x.mOffset ≠ 0 ∧ x.mOffset + x.mWin > x.mSize then
    { x with
      mCursor := x.mCursor + (x.mOffset + x.mWin - x.mSize)
      mOffset := if x.mSize > x.mWin then x.mSize - x.mWin else 0 }
  else x

/-- Second half of `sanityCheck`: the cursor stays on an item. -/
def cursorCheck (x : ListIdx) : ListIdx :=
  let hardUbound := if x.mWin ≠ 0 ∧ x.mSize ≠ 0 then x.hardUbound else 0
  { x with mCursor := if x.mCursor > hardUbound then hardUbound else x.mCursor }

def sanityCheck (x : ListIdx) : ListIdx := x.offsetCheck.cursorCheck

/-- The value both bound setters store. -/
def boundCut (x : ListIdx) (bnd : UInt32) : UInt32 :=
  if bnd < x.mWin then bnd else if x.mWin ≠ 0 then x.mWin - 1 else 0

def cursorLboundSet (x : ListIdx) (bnd : UInt32) : ListIdx :=
  { x with mCursorLbound := x.boundCut bnd }

def cursorUboundSet (x : ListIdx) (bnd : UInt32) : ListIdx :=
  { x with mCursorUbound := x.boundCut bnd }

def winSet (x : ListIdx) (win : UInt32) : ListIdx :=
  let x := sanityCheck { x with mWin := win }
  let bnd := if x.mWin &&& 1 = 0 then (x.mWin >>> 1) - 1 else x.mWin >>> 1
  (x.cursorLboundSet bnd).cursorUboundSet (x.mWin >>> 1)

def sizeSet (x : ListIdx) (size : UInt32) : ListIdx :=
  sanityCheck { x with mSize := size }

/-- `operator=(uint32_t)`. -/
def assign (x : ListIdx) (size : UInt32) : ListIdx := x.sizeSet size

def sizeJumpSet (x : ListIdx) (size : UInt16) : ListIdx :=
  { x with mSizeJump := if size < dMinSizeJump then dMinSizeJump.toUInt32 else size.toUInt32 }

def cursorBoundSet (x : ListIdx) (bnd : UInt32) : ListIdx :=
  if x.mWin = 0 then x
  else
    let bnd := if x.mWin < bnd + 1 then x.mWin - 1 else bnd
    (x.cursorLboundSet bnd).cursorUboundSet (x.mWin - 1 - bnd)

def textModeSet (x : ListIdx) : ListIdx :=
  (x.cursorLboundSet x.mWin).cursorUboundSet 0

/-- `ListIdx(uint32_t win)`; `{}` is the default constructor. -/
def ofWin (win : UInt32) : ListIdx := winSet {} win

def win (x : ListIdx) : UInt32 := x.mWin
def size (x : ListIdx) : UInt32 := x.mSize
def cursor (x : ListIdx) : UInt32 := x.mCursor
def offset (x : ListIdx) : UInt32 := x.mOffset
def cursorAbs (x : ListIdx) : UInt32 := x.mOffset + x.mCursor
def endReached (x : ListIdx) : Bool := decide (x.mOffset + x.mWin ≥ x.mSize)

/-! ## Moves: the new index, and whether it changed -/

def reset (x : ListIdx) : ListIdx × Bool :=
  ({ x with mCursor := 0, mOffset := 0 }, x.mCursor != 0 || x.mOffset != 0)

def cursorEndSet (x : ListIdx) : ListIdx × Bool :=
  if x.mWin = 0 ∨ x.mSize = 0 then (x, false)
  else
    ({ x with
        mCursor := x.hardUbound
        mOffset := if x.mSize > x.mWin then x.mSize - x.mWin else 0 },
      x.mCursor != x.hardUbound || !x.endReached)

def incOffset (x : ListIdx) : ListIdx × Bool :=
  if x.endReached then (x, false) else ({ x with mOffset := x.mOffset + 1 }, true)

def decOffset (x : ListIdx) : ListIdx × Bool :=
  if x.mOffset = 0 then (x, false) else ({ x with mOffset := x.mOffset - 1 }, true)

def incCursor (x : ListIdx) : ListIdx × Bool :=
  if x.mWin = 0 ∨ x.mSize = 0 then (x, false)
  else if x.mCursor = x.hardUbound then (x, false)
  else ({ x with mCursor := x.mCursor + 1 }, true)

def decCursor (x : ListIdx) : ListIdx × Bool :=
  if x.mCursor = 0 then (x, false) else ({ x with mCursor := x.mCursor - 1 }, true)

def inc (x : ListIdx) : ListIdx × Bool :=
  if x.mWin = 0 ∨ x.mSize = 0 then (x, false)
  else if x.mCursor ≥ x.mCursorUbound ∧ !x.endReached then
    ({ x with mOffset := x.mOffset + 1 }, true)
  else if x.mCursor < x.hardUbound then ({ x with mCursor := x.mCursor + 1 }, true)
  else (x, false)

def dec (x : ListIdx) : ListIdx × Bool :=
  if x.mCursor ≤ x.mCursorLbound ∧ x.mOffset ≠ 0 then
    ({ x with mOffset := x.mOffset - 1 }, true)
  else if x.mCursor ≠ 0 then ({ x with mCursor := x.mCursor - 1 }, true)
  else (x, false)

/-- The loop of the two jumps: `changed |= move()`, `n` times. -/
def jumpLoop (move : ListIdx → ListIdx × Bool) : Nat → ListIdx × Bool → ListIdx × Bool
  | 0, r => r
  | n + 1, (x, changed) => jumpLoop move n ((move x).1, changed || (move x).2)

def incJump (x : ListIdx) : ListIdx × Bool := jumpLoop inc x.mSizeJump.toNat (x, false)
def decJump (x : ListIdx) : ListIdx × Bool := jumpLoop dec x.mSizeJump.toNat (x, false)

/-! ## Change items -/

def insert (x : ListIdx) : ListIdx := (x.sizeSet (x.mSize + 1)).inc.1

/-- `operator++`. -/
def grow (x : ListIdx) : ListIdx := x.sizeSet (x.mSize + 1)

/-- `operator+=`. -/
def growBy (x : ListIdx) (num : UInt32) : ListIdx := x.sizeSet (x.mSize + num)

def currErase (x : ListIdx) : ListIdx × Bool :=
  if x.mSize = 0 then (x, false)
  else
    let x := if x.endReached ∧ x.mSize > x.mWin then x.decOffset.1.incCursor.1 else x
    (x.sizeSet (x.mSize - 1), true)

def prevErase (x : ListIdx) : ListIdx × Bool :=
  if x.cursorAbs = 0 then (x, false)
  else
    let x := if x.endReached ∧ x.mSize > x.mWin then x.decOffset.1 else x.dec.1
    (x.sizeSet (x.mSize - 1), true)

/-- `operator--`. -/
def shrink (x : ListIdx) : ListIdx :=
  if x.mSize = 0 then x else x.sizeSet (x.mSize - 1)

/-- `operator-=`. -/
def shrinkBy (x : ListIdx) (num : UInt32) : ListIdx :=
  x.sizeSet (x.mSize - if num > x.mSize then x.mSize else num)

/-! ## Keys -/

/-- `keyProcess`; a `char` of `pListKeysDisabled` is compared as `char32_t`. -/
def keyProcess (x : ListIdx) (key : KeyUser) (listKeysDisabled : List Char32) : ListIdx × Bool :=
  let keyCmp := if key.eqCtrl keyPgUp then key.assignChar 'K'.val else key
  let keyCmp := if keyCmp.eqCtrl keyPgDn then keyCmp.assignChar 'J'.val else keyCmp
  let disabled := listKeysDisabled.any keyCmp.eqChar
  if keyIsDown key && !disabled then x.inc
  else if keyIsUp key && !disabled then x.dec
  else if keyIsDownJump key && !disabled then x.incJump
  else if keyIsUpJump key && !disabled then x.decJump
  else if keyIsHome key && !disabled then x.reset
  else if keyIsEnd key && !disabled then x.cursorEndSet
  else (x, false)

end ListIdx

end ProcessingCommon
