import Mathlib.Tactic.Common

/-!
# Keys and Unicode (`KeyUser.h`, `KeyUser.cpp`)

A key is a printable code point or a control code, with three modifiers. The
texts of the widgets are `std::u32string`s; between UTF-8 and code points stand
the two converters of `KeyUser.cpp`, which throw `range_error` on input that is
not well formed.
-/

namespace ProcessingCommon

/-- `char32_t`: any 32-bit value, also one that is no code point. -/
abbrev Char32 := UInt32

/-- `std::u32string`. -/
abbrev U32String := List Char32

/-- `std::string`. -/
abbrev StdString := ByteArray

/-- `CtrlKeyUser`. -/
abbrev CtrlKeyUser := UInt16

/-! ## Unicode -/

/-- `strToUtf`: `none` is the `range_error` that `wstring_convert::from_bytes` is documented to
throw for bytes that are not UTF-8. libstdc++ drops an incomplete character at the end instead, and
takes surrogates. -/
def strToUtf (str : StdString) : Option U32String :=
  str.utf8Decode?.map fun chars => chars.toList.map Char.val

/-- The UTF-8 form of a sequence of characters. -/
def utf8Of (cs : List Char) : StdString := (String.ofList cs).toByteArray

/-- The code point as a character, if it is a Unicode scalar value. -/
def charOf? (c : Char32) : Option Char :=
  if h : c.isValidChar then some ⟨c, h⟩ else none

/-- `utfToStr`: `none` is the documented `range_error` of `wstring_convert::to_bytes`, as for
`strToUtf`; libstdc++ takes surrogates here too. -/
def utfToStr (ustr : U32String) : Option StdString :=
  (ustr.mapM charOf?).map utf8Of

/-- Well-formed text is decoded to its code points. -/
@[simp] theorem strToUtf_utf8Of (cs : List Char) : strToUtf (utf8Of cs) = some (cs.map Char.val) := by
  simp [strToUtf, utf8Of]

@[simp] theorem strToUtf_empty : strToUtf ByteArray.empty = some [] := strToUtf_utf8Of []

@[simp] theorem charOf?_val (c : Char) : charOf? c.val = some c :=
  dif_pos c.valid

theorem mapM_charOf?_map_val (cs : List Char) : (cs.map Char.val).mapM charOf? = some cs := by
  induction cs with
  | nil => rfl
  | cons c cs ih => simp [List.mapM_cons, ih]

/-- Scalar values are encoded as UTF-8. -/
@[simp] theorem utfToStr_map_val (cs : List Char) : utfToStr (cs.map Char.val) = some (utf8Of cs) := by
  simp only [utfToStr, mapM_charOf?_map_val, Option.map_some]

/-- What is decoded was well formed. -/
theorem strToUtf_some {str : StdString} {ustr : U32String} (h : strToUtf str = some ustr) :
    ∃ cs, str = utf8Of cs ∧ ustr = cs.map Char.val := by
  rw [strToUtf, Option.map_eq_some_iff] at h
  obtain ⟨chars, hc, rfl⟩ := h
  obtain ⟨cs, rfl⟩ := ByteArray.isSome_utf8Decode?_iff.mp (by rw [hc]; rfl)
  rw [List.utf8Decode?_utf8Encode, Option.some_inj] at hc
  refine ⟨cs, by simp [utf8Of], ?_⟩
  rw [← hc]

theorem mapM_charOf? {ustr : U32String} {cs : List Char} (h : ustr.mapM charOf? = some cs) :
    ustr = cs.map Char.val := by
  induction ustr generalizing cs with
  | nil =>
    cases h
    rfl
  | cons c ustr ih =>
    rw [List.mapM_cons] at h
    obtain ⟨d, hd, h⟩ := Option.bind_eq_some_iff.mp h
    obtain ⟨ds, hds, h⟩ := Option.bind_eq_some_iff.mp h
    cases h
    rw [charOf?] at hd
    split at hd
    · cases hd
      rw [List.map_cons, ← ih hds]
    · cases hd

/-- What is encoded are scalar values. -/
theorem utfToStr_some {ustr : U32String} {str : StdString} (h : utfToStr ustr = some str) :
    ∃ cs, ustr = cs.map Char.val ∧ str = utf8Of cs := by
  rw [utfToStr, Option.map_eq_some_iff] at h
  obtain ⟨cs, hc, rfl⟩ := h
  exact ⟨cs, mapM_charOf? hc, rfl⟩

/-- The converters are inverse to each other. -/
theorem strToUtf_of_utfToStr {ustr : U32String} {str : StdString} (h : utfToStr ustr = some str) :
    strToUtf str = some ustr := by
  obtain ⟨cs, rfl, rfl⟩ := utfToStr_some h
  exact strToUtf_utf8Of cs

theorem utfToStr_of_strToUtf {ustr : U32String} {str : StdString} (h : strToUtf str = some ustr) :
    utfToStr ustr = some str := by
  obtain ⟨cs, rfl, rfl⟩ := strToUtf_some h
  exact utfToStr_map_val cs

/-- All code points are Unicode scalar values. -/
def Encodable (ustr : U32String) : Prop := ∀ c ∈ ustr, c.isValidChar

theorem encodable_map_val (cs : List Char) : Encodable (cs.map Char.val) := by
  intro c hc
  obtain ⟨d, -, rfl⟩ := List.mem_map.mp hc
  exact d.valid

theorem Encodable.utfToStr {ustr : U32String} (h : Encodable ustr) :
    ∃ str, utfToStr ustr = some str := by
  have hcs : ∃ cs : List Char, ustr = cs.map Char.val := by
    induction ustr with
    | nil => exact ⟨[], rfl⟩
    | cons c ustr ih =>
      obtain ⟨cs, rfl⟩ := ih fun d hd => h d (List.mem_cons_of_mem _ hd)
      exact ⟨⟨c, h c List.mem_cons_self⟩ :: cs, rfl⟩
  obtain ⟨cs, rfl⟩ := hcs
  exact ⟨utf8Of cs, utfToStr_map_val cs⟩

/-! ## Keys -/

/-- `KeyUser`. The constructors and setters keep the two kinds of key apart. -/
structure KeyUser where
  mPrint : Char32 := 0
  mCtrl : CtrlKeyUser := 0
  mIsPrint : Bool := false
  mIsCtrl : Bool := false
  mModShift : Bool := false
  mModAlt : Bool := false
  mModCtrl : Bool := false
  kinds : (mIsPrint && mIsCtrl) = false := by rfl
deriving DecidableEq

namespace KeyUser

/-- `KeyUser(char32_t)`. -/
def ofChar (c : Char32) : KeyUser := { mPrint := c, mIsPrint := true }

/-- `keyCtrlSet` on a fresh key. -/
def ofCtrl (c : CtrlKeyUser) : KeyUser := { mCtrl := c, mIsCtrl := true }

/-- `operator=(char)`. -/
def assignChar (key : KeyUser) (c : Char32) : KeyUser :=
  { key with mPrint := c, mIsPrint := true, mIsCtrl := false, kinds := rfl }

/-- `operator==(const char32_t &)`. -/
def eqChar (key : KeyUser) (c : Char32) : Bool := key.mIsPrint && key.mPrint == c

/-- `operator<(const char &)`. -/
def ltChar (key : KeyUser) (c : Char32) : Bool := key.mIsPrint && decide (key.mPrint < c)

/-- `operator>(const char &)`. -/
def gtChar (key : KeyUser) (c : Char32) : Bool := key.mIsPrint && decide (key.mPrint > c)

/-- `operator==(const CtrlKeyUser &)`. -/
def eqCtrl (key : KeyUser) (c : CtrlKeyUser) : Bool := key.mIsCtrl && key.mCtrl == c

/-- `utf8()`: `none` when the converter throws. -/
def utf8 (key : KeyUser) : Option StdString :=
  if key.mIsCtrl then some ByteArray.empty else utfToStr [key.mPrint]

def isPrint (key : KeyUser) : Bool := key.mIsPrint
def isCtrl (key : KeyUser) : Bool := key.mIsCtrl
def modShift (key : KeyUser) : Bool := key.mModShift
def modCtrl (key : KeyUser) : Bool := key.mModCtrl

end KeyUser

def keyCtrlA : CtrlKeyUser := 0x01
def keyCtrlC : CtrlKeyUser := 0x03
def keyBackspaceWin : CtrlKeyUser := 0x08
def keyCtrlX : CtrlKeyUser := 0x18
def keyBackspace : CtrlKeyUser := 0x7F
def keyUp : CtrlKeyUser := 1000
def keyDown : CtrlKeyUser := 1001
def keyLeft : CtrlKeyUser := 1002
def keyRight : CtrlKeyUser := 1003
def keyHome : CtrlKeyUser := 1004
def keyDelete : CtrlKeyUser := 1006
def keyEnd : CtrlKeyUser := 1007
def keyPgUp : CtrlKeyUser := 1008
def keyPgDn : CtrlKeyUser := 1009

/-! ## Keychecks -/

/-- `chBoundaries`. -/
def chBoundaries : U32String :=
  [' ', '.', ',', ';', ':', '-', '_', '(', ')', '\x7b', '\x7d', '[', ']', '"', '\x27', '/',
    '\\', '+', '*', '=', '%', '<', '>'].map Char.val

def keyIsBoundary (key : KeyUser) : Bool := chBoundaries.any key.eqChar

def keyIsBackspace (key : KeyUser) : Bool :=
  key.isCtrl && (key.mCtrl == keyBackspace || key.mCtrl == keyBackspaceWin)

/-- A control key is not printable. -/
theorem KeyUser.isPrint_of_eqCtrl {key : KeyUser} {c : CtrlKeyUser} (h : key.eqCtrl c = true) :
    key.isPrint = false := by
  rw [eqCtrl, Bool.and_eq_true] at h
  have hk := key.kinds
  rw [h.1, Bool.and_true] at hk
  exact hk

/-- A key has one control code. -/
theorem KeyUser.eqCtrl_inj {key : KeyUser} {c d : CtrlKeyUser} (h : key.eqCtrl c = true)
    (h' : key.eqCtrl d = true) : c = d := by
  simp only [eqCtrl, Bool.and_eq_true, beq_iff_eq] at h h'
  exact h.2.symm.trans h'.2

theorem KeyUser.eqCtrl_of_ne {key : KeyUser} {c d : CtrlKeyUser} (h : key.eqCtrl c = true)
    (hne : c ≠ d) : ¬ key.eqCtrl d = true := fun hd => hne (eqCtrl_inj h hd)

theorem KeyUser.eqCtrl_of_isPrint {key : KeyUser} (h : key.isPrint = true) (c : CtrlKeyUser) :
    ¬ key.eqCtrl c = true := fun hc => Bool.false_ne_true ((isPrint_of_eqCtrl hc).symm.trans h)

theorem keyIsBackspace_iff {key : KeyUser} :
    keyIsBackspace key = true ↔ key.eqCtrl keyBackspace = true ∨ key.eqCtrl keyBackspaceWin = true := by
  simp only [keyIsBackspace, KeyUser.isCtrl, KeyUser.eqCtrl, Bool.and_eq_true, Bool.or_eq_true]
  exact and_or_left

theorem not_keyIsBackspace {key : KeyUser} (h : ¬ key.eqCtrl keyBackspace = true)
    (h' : ¬ key.eqCtrl keyBackspaceWin = true) : ¬ keyIsBackspace key = true := by
  rw [keyIsBackspace_iff]
  exact not_or.mpr ⟨h, h'⟩

/-- The shape of the six list keys: a control code or a vi-like letter. -/
def keyIsCtrlOr (ctrl : CtrlKeyUser) (letter : Char) (key : KeyUser) : Bool :=
  (key.isCtrl && key.mCtrl == ctrl) || (key.isPrint && key.mPrint == letter.val)

def keyIsHome : KeyUser → Bool := keyIsCtrlOr keyHome 'g'
def keyIsEnd : KeyUser → Bool := keyIsCtrlOr keyEnd 'G'
def keyIsUp : KeyUser → Bool := keyIsCtrlOr keyUp 'k'
def keyIsDown : KeyUser → Bool := keyIsCtrlOr keyDown 'j'
def keyIsUpJump : KeyUser → Bool := keyIsCtrlOr keyPgUp 'K'
def keyIsDownJump : KeyUser → Bool := keyIsCtrlOr keyPgDn 'J'

end ProcessingCommon
