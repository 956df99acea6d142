import Mathlib.Logic.Function.Iterate
import ProcessingCommon.Lib.BasicString
import ProcessingCommon.ListIdx

/-!
# The one-line editor (`widgets-term/TextBox.h`, `widgets-term/TextBox.cpp`)

A `TextBox` edits `mUstrWork` while it has the focus; `mCurrent` and
`mUstrCurrent` are the committed text in its two encodings. `mIdxFront` is the
cursor, `mIdxBack` the other end of the selection; both count one item more than
the text has, for the position behind it.

A call may throw: `range_error` from the converters and `out_of_range` from the
string functions. The state of the object at that moment is kept, so every
function gives the state after the call together with the value or the exception.
-/

namespace ProcessingCommon

inductive Exn
  | rangeError
  | outOfRange
deriving DecidableEq

/-! ## `std::u32string` and `size_t` -/

/-- The conversion of a `size_t` to `uint32_t`. -/
def sizeToU32 (n : Nat) : UInt32 := UInt32.ofNat n

/-- `erase(pos, len)`. -/
def eraseAt (s : U32String) (pos len : Nat) : Except Exn U32String :=
  if pos ≤ s.length then .ok (s.take pos ++ s.drop (pos + len)) else .error .outOfRange

/-- `insert(pos, str)`. -/
def insertAt (s : U32String) (pos : Nat) (str : U32String) : Except Exn U32String :=
  if pos ≤ s.length then .ok (s.take pos ++ str ++ s.drop pos) else .error .outOfRange

/-- `substr(pos, len)`. -/
def substr (s : U32String) (pos len : Nat) : Except Exn U32String :=
  if pos ≤ s.length then .ok ((s.drop pos).take len) else .error .outOfRange

/-- `c_str()[i]`; the terminator is `0`. -/
def charAt (s : U32String) (i : Nat) : Char32 := s.getD i 0

/-! ## State -/

def dSizeWidthMin : UInt16 := 4

structure TextBox where
  mFocus : Bool := false
  mCurrent : StdString := ByteArray.empty
  mWidth : UInt16 := 10
  mLenMax : Nat := 64
  mUstrCurrent : U32String := []
  mUstrWork : U32String := []
  mClipboard : StdString := ByteArray.empty
  mIdxFront : ListIdx := {}
  mIdxBack : ListIdx := {}
  mPasswordMode : Bool := false
  mNumbersOnly : Bool := false
  mDirty : Bool := false
  mFrameEnabled : Bool := true
  mPaddingEnabled : Bool := true
  mCursorShow : Bool := true

namespace TextBox

/-- The object after a call, and what the call returned or threw. -/
abbrev Result (α : Type) := TextBox × Except Exn α

/-! ## Private functions -/

def listIdxLow (b : TextBox) : ListIdx :=
  if b.mIdxFront.cursorAbs > b.mIdxBack.cursorAbs then b.mIdxBack else b.mIdxFront

def listIdxHigh (b : TextBox) : ListIdx :=
  if b.mIdxFront.cursorAbs > b.mIdxBack.cursorAbs then b.mIdxFront else b.mIdxBack

/-- The length of the selection: a `uint32_t` difference. -/
def selectionLen (b : TextBox) : Nat :=
  (b.listIdxHigh.cursorAbs - b.listIdxLow.cursorAbs).toNat

/-- `dirtySet()`, as it ends the branches of `keyProcess`. -/
def dirtySet (b : TextBox) : Result Bool := ({ b with mDirty := true }, .ok true)

def clipboardSet (b : TextBox) : Result Unit :=
  if !b.mFocus then ({ b with mClipboard := b.mCurrent }, .ok ())
  else
    match substr b.mUstrWork b.listIdxLow.cursorAbs.toNat b.selectionLen with
    | .error e => (b, .error e)
    | .ok ustr =>
      match utfToStr ustr with
      | none => (b, .error .rangeError)
      | some str => ({ b with mClipboard := str }, .ok ())

/-- First part of `selectionReplace`: the selection is cut out and both indexes
become the lower one, resized. -/
def selectionClear (b : TextBox) : Result Unit :=
  match eraseAt b.mUstrWork b.listIdxLow.cursorAbs.toNat b.selectionLen with
  | .error e => (b, .error e)
  | .ok work =>
    let idxLow := b.listIdxLow.assign (sizeToU32 (work.length + 1))
    ({ b with mUstrWork := work, mIdxFront := idxLow, mIdxBack := idxLow }, .ok ())

/-- Second part of `selectionReplace`: as much of `str` as `mLenMax` admits. -/
def selectionInsert (b : TextBox) (str : StdString) : Result Unit :=
  match strToUtf str with
  | none => (b, .error .rangeError)
  | some ustr =>
    let len := sizeSub (min (b.mUstrWork.length + ustr.length) b.mLenMax) b.mUstrWork.length
    match insertAt b.mUstrWork b.mIdxFront.cursorAbs.toNat (ustr.take len) with
    | .error e => (b, .error e)
    | .ok work =>
      let idxFront := ListIdx.insert^[len] b.mIdxFront
      ({ b with mUstrWork := work, mIdxFront := idxFront, mIdxBack := idxFront }, .ok ())

def selectionReplace (b : TextBox) (str : StdString) : Result Unit :=
  match b.selectionClear with
  | (b, .error e) => (b, .error e)
  | (b, .ok ()) => b.selectionInsert str

/-- The loop of `cursorJump`. `pCursor` and `pPrev` are positions in the text;
the count bounds the rounds, `idxAbs` takes at most `2 ^ 16` values. -/
def cursorJumpLoop (work : U32String) (isRight : Bool) (idxStop : UInt16) :
    Nat → ListIdx → UInt16 → Nat → Option Nat → Bool → ListIdx × Bool
  | 0, idxFront, _, _, _, changed => (idxFront, changed)
  | n + 1, idxFront, idxAbs, pCursor, pPrev, changed =>
    if idxAbs = idxStop then (idxFront, changed)
    else
      let idxFront := if isRight then idxFront.inc.1 else idxFront.dec.1
      let pCursor := if isRight then pCursor + 1 else pCursor - 1
      let idxAbs := if isRight then idxAbs + 1 else idxAbs - 1
      let pPrev := if idxAbs ≠ 0 then some (pCursor - 1) else pPrev
      match pPrev with
      | none => cursorJumpLoop work isRight idxStop n idxFront idxAbs pCursor none true
      | some p =>
        if keyIsBoundary (.ofChar (charAt work p)) = !isRight ∧
            keyIsBoundary (.ofChar (charAt work pCursor)) = isRight then
          (idxFront, true)
        else cursorJumpLoop work isRight idxStop n idxFront idxAbs pCursor (some p) true

def cursorJump (b : TextBox) (key : KeyUser) : ListIdx × Bool :=
  if b.mUstrWork.length = 0 then (b.mIdxFront, false)
  else
    let isRight := key.eqCtrl keyRight
    let idxAbs := b.mIdxFront.cursorAbs.toUInt16
    let idxStop := if isRight then UInt16.ofNat b.mUstrWork.length else 0
    cursorJumpLoop b.mUstrWork isRight idxStop (2 ^ 16) b.mIdxFront idxAbs idxAbs.toNat none false

/-- The moves of `navigate`: `none` if the key is no navigation key. -/
def navigateFront (b : TextBox) (key : KeyUser) : Option (ListIdx × Bool) :=
  if key.eqCtrl keyHome then some b.mIdxFront.reset
  else if key.eqCtrl keyEnd then some b.mIdxFront.cursorEndSet
  else if (key.eqCtrl keyLeft || key.eqCtrl keyRight) && key.modCtrl then some (b.cursorJump key)
  else if key.eqCtrl keyLeft || key.eqCtrl keyUp then some b.mIdxFront.dec
  else if key.eqCtrl keyRight || key.eqCtrl keyDown then some b.mIdxFront.inc
  else if key.eqCtrl keyPgUp || key.eqCtrl keyPgDn then some (b.mIdxFront.keyProcess key [])
  else none

def navigate (b : TextBox) (key : KeyUser) : TextBox × Bool :=
  match b.navigateFront key with
  | none => (b, false)
  | some (idxFront, changed) =>
    if key.modShift then ({ b with mIdxFront := idxFront }, changed)
    else ({ b with mIdxFront := idxFront, mIdxBack := idxFront }, true)

/-! ## Configuration -/

def widthSet (b : TextBox) (width : UInt16) : TextBox :=
  if width < dSizeWidthMin then b
  else
    let b := { b with mWidth := width }
    let width := if b.mFrameEnabled then width - 2 else width
    let width := if b.mPaddingEnabled then width - 2 else width
    let idxFront := b.mIdxFront.winSet width.toUInt32
    { b with mIdxFront := idxFront, mIdxBack := b.mIdxBack.winSet idxFront.win }

def lenMaxSet (b : TextBox) (lenMax : UInt16) : TextBox := { b with mLenMax := lenMax.toNat }

def cursorBoundSet (b : TextBox) (bnd : UInt32) : TextBox :=
  { b with
    mIdxFront := b.mIdxFront.cursorBoundSet bnd
    mIdxBack := b.mIdxBack.cursorBoundSet bnd }

def passwordModeSet (b : TextBox) (mode : Bool) : TextBox := { b with mPasswordMode := mode }

def numbersOnlySet (b : TextBox) (only : Bool) : TextBox := { b with mNumbersOnly := only }

def focusSet (b : TextBox) (foc accept : Bool) : Result Unit :=
  let b := { b with mFocus := foc }
  if foc then
    let b := { b with mUstrWork := b.mUstrCurrent }
    let idxFront := (b.mIdxFront.assign (sizeToU32 (b.mUstrWork.length + 1))).cursorEndSet.1
    ({ b with mIdxFront := idxFront, mIdxBack := idxFront }, .ok ())
  else
    let b := if accept then { b with mUstrCurrent := b.mUstrWork } else b
    match (if accept then utfToStr b.mUstrCurrent else some b.mCurrent) with
    | none => (b, .error .rangeError)
    | some str =>
      let idxFront := (b.mIdxFront.assign (sizeToU32 (b.mUstrCurrent.length + 1))).reset.1
      ({ b with mCurrent := str, mIdxFront := idxFront, mIdxBack := idxFront }, .ok ())

/-- Both loops count a `uint16_t` up, so they run as often as the difference says. -/
def selectionSet (b : TextBox) (idxStart len : UInt16) : TextBox :=
  let str := if b.mFocus then b.mUstrWork else b.mUstrCurrent
  let idxEnd := idxStart + len
  let idxMax := UInt16.ofNat str.length
  let idxFront := b.mIdxFront.reset.1
  let idxStart := if idxStart > idxMax then idxMax else idxStart
  let idxFront := (fun x => x.inc.1)^[idxStart.toNat] idxFront
  let idxBack := idxFront
  let idxEnd := if len = 0 ∨ idxEnd > idxMax then idxMax else idxEnd
  let idxFront := (fun x => x.inc.1)^[idxEnd.toNat - idxStart.toNat] idxFront
  { b with mIdxFront := idxFront, mIdxBack := idxBack }

def frameEnabledSet (b : TextBox) (val : Bool) : TextBox :=
  { b with mFrameEnabled := val }.widthSet b.mWidth

def paddingEnabledSet (b : TextBox) (val : Bool) : TextBox :=
  { b with mPaddingEnabled := val }.widthSet b.mWidth

def cursorShow (b : TextBox) (val : Bool) : TextBox := { b with mCursorShow := val }

/-! ## Input -/

def currentSet (b : TextBox) (str : StdString) : Result Unit :=
  let b := { b with mCurrent := str }
  match strToUtf str with
  | none => (b, .error .rangeError)
  | some ustr =>
    let b := { b with mUstrCurrent := ustr }
    if b.mFocus then (b, .ok ())
    else
      let idxFront := b.mIdxFront.assign (sizeToU32 (ustr.length + 1))
      ({ b with mIdxFront := idxFront, mIdxBack := b.mIdxBack.assign idxFront.size }, .ok ())

def ustrWorkSet (b : TextBox) (ustr : U32String) : TextBox :=
  let b := { b with mUstrWork := ustr }
  if !b.mFocus then b
  else
    let idxFront := (b.mIdxFront.assign (sizeToU32 (ustr.length + 1))).cursorEndSet.1
    { b with mIdxFront := idxFront, mIdxBack := idxFront }

def paste (b : TextBox) (str : StdString) : Result Unit :=
  if !b.mFocus then b.currentSet str else b.selectionReplace str

/-- `TextBox()`. -/
def new : TextBox :=
  let b : TextBox := {}
  let idxFront := b.mIdxFront.winSet b.mWidth.toUInt32
  ({ b with mIdxFront := idxFront, mIdxBack := b.mIdxBack.winSet idxFront.win }.currentSet
    ByteArray.empty).1

/-! ## Keys -/

/-- A branch of `keyProcess` that replaces the selection and ends with `dirtySet()`. -/
def replaceDirty (b : TextBox) (str : StdString) : Result Bool :=
  match b.selectionReplace str with
  | (b, .error e) => (b, .error e)
  | (b, .ok ()) => b.dirtySet

def isSelection (b : TextBox) : Bool := b.mIdxFront.cursorAbs != b.mIdxBack.cursorAbs

/-- `key == keyCtrlX`. -/
def keyCut (b : TextBox) : Result Bool :=
  match b.clipboardSet with
  | (b, .error e) => (b, .error e)
  | (b, .ok ()) =>
    if !b.mFocus then { b with mUstrCurrent := [] }.dirtySet else b.replaceDirty ByteArray.empty

/-- `key == keyCtrlC`. -/
def keyCopy (b : TextBox) : Result Bool :=
  match b.clipboardSet with
  | (b, .error e) => (b, .error e)
  | (b, .ok ()) => (b, .ok true)

/-- `key == keyCtrlA`. -/
def keySelectAll (b : TextBox) : Result Bool :=
  let back := b.mIdxBack.reset
  let front := b.mIdxFront.cursorEndSet
  ({ b with
      mIdxBack := back.1
      mIdxFront := front.1
      mDirty := b.mDirty || back.2 || front.2 }, .ok true)

/-- `keyIsBackspace(key)`. -/
def keyBackspaceProcess (b : TextBox) : Result Bool :=
  if b.isSelection then b.replaceDirty ByteArray.empty
  else
    let (idxFront, erased) := b.mIdxFront.prevErase
    let b := { b with mIdxFront := idxFront }
    if !erased then (b, .ok false)
    else
      match eraseAt b.mUstrWork b.mIdxFront.cursorAbs.toNat 1 with
      | .error e => (b, .error e)
      | .ok work => { b with mUstrWork := work, mIdxBack := b.mIdxFront }.dirtySet

/-- `key == keyDelete`. -/
def keyDeleteProcess (b : TextBox) : Result Bool :=
  if b.isSelection then b.replaceDirty ByteArray.empty
  else if b.mIdxFront.cursorAbs = b.mIdxFront.size - 1 then (b, .ok false)
  else
    let cursorAbs := b.mIdxFront.cursorAbs
    let (idxFront, erased) := b.mIdxFront.currErase
    let b := { b with mIdxFront := idxFront }
    if !erased then (b, .ok false)
    else
      let b := { b with mIdxBack := b.mIdxFront }
      match eraseAt b.mUstrWork cursorAbs.toNat 1 with
      | .error e => (b, .error e)
      | .ok work => { b with mUstrWork := work }.dirtySet

/-- The insertion of a printable key. -/
def keyPrintProcess (b : TextBox) (key : KeyUser) : Result Bool :=
  if b.mNumbersOnly && (key.ltChar '0'.val || key.gtChar '9'.val) then (b, .ok false)
  else if b.isSelection then
    match key.utf8 with
    | none => (b, .error .rangeError)
    | some str => b.replaceDirty str
  else if b.mUstrWork.length ≥ b.mLenMax then (b, .ok false)
  else
    match insertAt b.mUstrWork b.mIdxFront.cursorAbs.toNat [key.mPrint] with
    | .error e => (b, .error e)
    | .ok work =>
      let idxFront := b.mIdxFront.insert
      { b with mUstrWork := work, mIdxFront := idxFront, mIdxBack := idxFront }.dirtySet

/-- Removal and insertion, after `navigate` did not change anything. -/
def keyEdit (b : TextBox) (key : KeyUser) : Result Bool :=
  if keyIsBackspace key then b.keyBackspaceProcess
  else if key.eqCtrl keyDelete then b.keyDeleteProcess
  else if !key.isPrint then (b, .ok false)
  else b.keyPrintProcess key

def keyProcess (b : TextBox) (key : KeyUser) : Result Bool :=
  let b := { b with mDirty := false }
  if key.eqCtrl keyCtrlX then b.keyCut
  else if key.eqCtrl keyCtrlC then b.keyCopy
  else if !b.mFocus then (b, .ok false)
  else if key.eqCtrl keyCtrlA then b.keySelectAll
  else
    -- mIdxFront may change here
    let (b, changed) := b.navigate key
    if changed then b.dirtySet else b.keyEdit key

/-! ## Output -/

def ustrWork (b : TextBox) : U32String := b.mUstrWork

def current (b : TextBox) : StdString := b.mCurrent

def dirty (b : TextBox) : TextBox × Bool := ({ b with mDirty := false }, b.mDirty)

def clipboard (b : TextBox) (clear : Bool) : TextBox × StdString :=
  if !clear then (b, b.mClipboard) else ({ b with mClipboard := ByteArray.empty }, b.mClipboard)

def cursorAbsFront (b : TextBox) : UInt32 := b.mIdxFront.cursorAbs

def cursorAbsBack (b : TextBox) : UInt32 := b.mIdxBack.cursorAbs

/-- `sizeDisplayed()`. -/
def sizeDisplayed (b : TextBox) : Nat :=
  if b.mFocus then b.mUstrWork.length else b.mCurrent.size

/-! ### `print` -/

/-- The `mModifier...` members of `Widget`. -/
structure Modifiers where
  mModifierFrame : StdString := ByteArray.empty
  mModifierContent : StdString := ByteArray.empty
  mModifierSelection : StdString := utf8Of ['\x1b', '[', '4', '8', ';', '5', ';', '9', '9', 'm']

def sgrReset : StdString := utf8Of ['\x1b', '[', '0', 'm']

def sgrUnderline : StdString := utf8Of ['\x1b', '[', '4', 'm']

/-- `utfStrAdd`: `none` is the `range_error` of `strToUtf`. -/
def utfStrAdd (ustr : U32String) (str : StdString) : Option U32String :=
  (strToUtf str).map (ustr ++ ·)

/-- The text that is shown. -/
def shown (b : TextBox) : U32String := if b.mFocus then b.mUstrWork else b.mUstrCurrent

/-- `ch`, the content of a position; `strIn` has a blank behind the text. -/
def shownChar (b : TextBox) (idxAbs : Nat) : Char32 :=
  let strIn := b.shown ++ [' '.val]
  if idxAbs ≥ strIn.length then ' '.val
  else if b.mPasswordMode && decide (idxAbs < strIn.length - 1) then '*'.val
  else charAt strIn idxAbs

def cursorPrint (b : TextBox) (idxAbs : Nat) : Bool :=
  b.mFocus && b.mCursorShow && idxAbs == b.mIdxFront.cursorAbs.toNat

def selectionPrint (b : TextBox) : Bool :=
  b.mFocus && b.listIdxLow.cursorAbs != b.listIdxHigh.cursorAbs

/-- What a round of the loop prints: an overflow mark or a position of the text. -/
inductive Cell
  | mark (ch : Char)
  | text (idxAbs : Nat) (ch : Char32) (underlined : Bool)
deriving DecidableEq

def cell (b : TextBox) (idxRel : Nat) : Cell :=
  let idxAbs := b.mIdxFront.offset.toNat + idxRel
  if idxRel = 0 ∧ b.mIdxFront.offset ≠ 0 then .mark '\u00AB'
  else if idxRel = b.mIdxFront.win.toNat - 1 ∧ !b.mIdxFront.endReached then .mark '\u00BB'
  else .text idxAbs (b.shownChar idxAbs) (b.cursorPrint idxAbs)

/-- A round of the loop. -/
def printCell (b : TextBox) (m : Modifiers) (ustrPrint : U32String) : Cell → Option U32String
  | .mark ch => utfStrAdd ustrPrint (utf8Of [ch])
  | .text idxAbs ch underlined => do
    let low := b.listIdxLow.cursorAbs.toNat
    let high := b.listIdxHigh.cursorAbs.toNat
    let ustrPrint ←
      if b.selectionPrint && idxAbs == low then utfStrAdd ustrPrint m.mModifierSelection
      else some ustrPrint
    let ustrPrint ←
      if b.selectionPrint && idxAbs == high then
        (utfStrAdd ustrPrint sgrReset).bind (utfStrAdd · m.mModifierContent)
      else some ustrPrint
    if !underlined then some (ustrPrint ++ [ch])
    else
      let ustrPrint ← utfStrAdd ustrPrint sgrUnderline
      let ustrPrint ← utfStrAdd (ustrPrint ++ [ch]) sgrReset
      utfStrAdd ustrPrint
        (if b.selectionPrint && decide (idxAbs < high) then m.mModifierSelection
          else m.mModifierContent)

/-- What `print` adds to `msg`; `none` is a `range_error`. -/
def print (b : TextBox) (m : Modifiers) : Option StdString := do
  let frame := fun foc noFoc : Char =>
    if b.mFrameEnabled then [(if b.mFocus then foc else noFoc).val] else []
  let padding := if b.mPaddingEnabled then [' '.val] else []
  let ustrPrint ← utfStrAdd [] m.mModifierFrame
  let ustrPrint ← utfStrAdd (ustrPrint ++ frame '>' '|' ++ padding) sgrReset
  let isSelection := b.selectionPrint &&
    decide (b.mIdxFront.offset.toNat ≥ b.listIdxLow.cursorAbs.toNat)
  let ustrPrint ← utfStrAdd ustrPrint
    (if isSelection then m.mModifierSelection else m.mModifierContent)
  let ustrPrint ← ((List.range b.mIdxFront.win.toNat).map b.cell).foldlM (b.printCell m) ustrPrint
  let ustrPrint ← utfStrAdd ustrPrint sgrReset
  let ustrPrint ← utfStrAdd ustrPrint m.mModifierFrame
  let ustrPrint ← utfStrAdd (ustrPrint ++ padding ++ frame '<' '|') sgrReset
  utfToStr ustrPrint

/-! ## Public operations -/

inductive Op
  | widthSet (width : UInt16)
  | lenMaxSet (lenMax : UInt16)
  | cursorBoundSet (bnd : UInt32)
  | passwordModeSet (mode : Bool)
  | numbersOnlySet (only : Bool)
  | focusSet (foc accept : Bool)
  | selectionSet (idxStart len : UInt16)
  | frameEnabledSet (val : Bool)
  | paddingEnabledSet (val : Bool)
  | cursorShow (val : Bool)
  | currentSet (str : StdString)
  | ustrWorkSet (ustr : U32String)
  | paste (str : StdString)
  | keyProcess (key : KeyUser)
  | dirty
  | clipboard (clear : Bool)

/-- One call. A `bool` is returned by `keyProcess` and `dirty` only. -/
def step (b : TextBox) : Op → Result (Option Bool)
  | .widthSet width => (b.widthSet width, .ok none)
  | .lenMaxSet lenMax => (b.lenMaxSet lenMax, .ok none)
  | .cursorBoundSet bnd => (b.cursorBoundSet bnd, .ok none)
  | .passwordModeSet mode => (b.passwordModeSet mode, .ok none)
  | .numbersOnlySet only => (b.numbersOnlySet only, .ok none)
  | .focusSet foc accept => ((b.focusSet foc accept).1, (b.focusSet foc accept).2.map fun _ => none)
  | .selectionSet idxStart len => (b.selectionSet idxStart len, .ok none)
  | .frameEnabledSet val => (b.frameEnabledSet val, .ok none)
  | .paddingEnabledSet val => (b.paddingEnabledSet val, .ok none)
  | .cursorShow val => (b.cursorShow val, .ok none)
  | .currentSet str => ((b.currentSet str).1, (b.currentSet str).2.map fun _ => none)
  | .ustrWorkSet ustr => (b.ustrWorkSet ustr, .ok none)
  | .paste str => ((b.paste str).1, (b.paste str).2.map fun _ => none)
  | .keyProcess key => ((b.keyProcess key).1, (b.keyProcess key).2.map some)
  | .dirty => (b.dirty.1, .ok (some b.dirty.2))
  | .clipboard clear => ((b.clipboard clear).1, .ok none)

/-- The box after a call. -/
def apply (b : TextBox) (op : Op) : TextBox := (b.step op).1

/-- The box after a sequence of calls. -/
def run (b : TextBox) (ops : List Op) : TextBox := ops.foldl apply b

end TextBox

end ProcessingCommon
